import Aegis.Identity.Revocation
import Aegis.Invite.Invite

/-!
# Membership grants

The signed grants `AEGIS2:` of `invite/invite.cpp`. An issuer signs the layout of a grant, which holds two
variable-length lists, and the decoder, written apart from it, reads the same layout and checks the signature
over the layout of what it read. So the layout determines the grant, and what decodes is what was signed.

The endpoints of the bootstrap candidates are laid out as IPv4 numbers; a grant whose addresses have unused
bytes other than zero is signed without them.
-/

namespace Aegis

def AEGIS2_PREFIX : List UInt8 := asciiBytes "AEGIS2:"
def AEGIS2_SIGNING_DOMAIN : List UInt8 := asciiBytes "aegis-membership-grant-v2"
def AEGIS2_MAX_PREFIXES : Nat := 16
def AEGIS2_MAX_BOOTSTRAP_CANDIDATES : Nat := 4
def AEGIS2_FIXED_SIZE : Nat := 32 + 32 + 32 + 32 + 8 * 4 + 2 + 64
def AEGIS2_MAX_SIZE : Nat := AEGIS2_FIXED_SIZE + AEGIS2_MAX_PREFIXES * 5 + AEGIS2_MAX_BOOTSTRAP_CANDIDATES * 38

/-- A prefix that a member may use; `network` is the field `prefix`. -/
structure Aegis2PrefixGrant where
  network : UInt32 := 0
  prefixLen : UInt8 := 0
deriving DecidableEq

structure Aegis2BootstrapCandidate where
  x25519PublicKey : X25519Key := FixedBytes.zero 32
  endpoint : Endpoint := {}
deriving DecidableEq

structure Aegis2MembershipGrant where
  networkId : NetworkId := FixedBytes.zero 32
  issuerSigningPublicKey : SigningKey := FixedBytes.zero 32
  issuerNodeId : NodeId := FixedBytes.zero 32
  enrollmentNonce : FixedBytes 32 := FixedBytes.zero 32
  issuedAt : UInt64 := 0
  expiresAt : UInt64 := 0
  capabilities : UInt64 := 0
  revocationEpoch : UInt64 := 0
  allowedPrefixes : List Aegis2PrefixGrant := []
  bootstrapCandidates : List Aegis2BootstrapCandidate := []
  signature : IdentitySignature := FixedBytes.zero 64
deriving DecidableEq

/-- Signatures with their private keys. -/
structure SigningScheme extends SignatureScheme where
  sign : FixedBytes 32 → List UInt8 → Option IdentitySignature

open WireReader

namespace Aegis2PrefixGrant

def accepted (granted : Aegis2PrefixGrant) : Bool := granted.prefixLen ≤ 32

def write (granted : Aegis2PrefixGrant) : List UInt8 := beBytes 4 granted.network.toNat ++ [granted.prefixLen]

def read (reader : WireReader) : Option (Aegis2PrefixGrant × WireReader) := do
  let (network, reader) ← reader.readU32
  let (prefixLen, reader) ← reader.readU8
  if 32 < prefixLen then none else some (⟨network, prefixLen⟩, reader)

variable {granted : Aegis2PrefixGrant} {reader reader' : WireReader}

@[simp] theorem length_write (granted : Aegis2PrefixGrant) : granted.write.length = 5 := by
  simp [write]

theorem read_write (h : granted.accepted = true) (rest : List UInt8) :
    read ⟨granted.write ++ rest⟩ = some (granted, ⟨rest⟩) := by
  rw [write, List.append_assoc, read]
  refine Option.bind_eq_some_iff.mpr ⟨_, readU32_beBytes granted.network _, ?_⟩
  refine Option.bind_eq_some_iff.mpr ⟨_, readU8_cons granted.prefixLen rest, ?_⟩
  exact if_neg (UInt8.not_lt.mpr (of_decide_eq_true h))

theorem of_read (h : read reader = some (granted, reader')) :
    granted.accepted = true ∧ reader.rest = granted.write ++ reader'.rest := by
  obtain ⟨⟨network, reader₁⟩, hnetwork, h⟩ := Option.bind_eq_some_iff.mp h
  obtain ⟨⟨prefixLen, reader₂⟩, hlength, h⟩ := Option.bind_eq_some_iff.mp h
  dsimp only at hlength h
  split_ifs at h with hlong
  obtain ⟨rfl, rfl⟩ := Prod.mk.inj (Option.some.inj h)
  refine ⟨decide_eq_true (UInt8.not_lt.mp hlong), ?_⟩
  rw [rest_of_readU32 hnetwork, rest_of_readU8 hlength, write, List.append_assoc]
  rfl

end Aegis2PrefixGrant

namespace Aegis2BootstrapCandidate

def accepted (candidate : Aegis2BootstrapCandidate) : Bool :=
  !(candidate.x25519PublicKey = FixedBytes.zero 32 || !candidate.endpoint.isIpv4 ||
    candidate.endpoint.ipv4Network = 0 || htons candidate.endpoint.port = 0)

def write (candidate : Aegis2BootstrapCandidate) : List UInt8 :=
  candidate.x25519PublicKey.1 ++
    (beBytes 4 candidate.endpoint.ipv4Network.toNat ++ beBytes 2 (htons candidate.endpoint.port).toNat)

def read (reader : WireReader) : Option (Aegis2BootstrapCandidate × WireReader) := do
  let (key, reader) ← reader.readArray 32
  let (ip, reader) ← reader.readU32
  let (port, reader) ← reader.readU16
  if ip = 0 ∨ port = 0 ∨ key.1.all (· = 0) = true then none
  else some (⟨key, Endpoint.fromIpv4 ip port⟩, reader)

variable {candidate : Aegis2BootstrapCandidate} {reader reader' : WireReader}

@[simp] theorem length_write (candidate : Aegis2BootstrapCandidate) : candidate.write.length = 38 := by
  simp [write, candidate.x25519PublicKey.2]

theorem accepted_iff : candidate.accepted = true ↔ candidate.x25519PublicKey ≠ FixedBytes.zero 32 ∧
    candidate.endpoint.isIpv4 = true ∧ candidate.endpoint.ipv4Network ≠ 0 ∧ htons candidate.endpoint.port ≠ 0 := by
  simp [accepted, and_assoc]

theorem all_zero_iff {n : Nat} (key : FixedBytes n) : key.1.all (· = 0) = true ↔ key = FixedBytes.zero n := by
  rw [List.all_eq_true, Subtype.ext_iff]
  show (∀ byte ∈ key.1, decide (byte = 0) = true) ↔ key.1 = List.replicate n 0
  simp only [decide_eq_true_eq, List.eq_replicate_iff, key.2, true_and]

theorem read_write (h : candidate.accepted = true) (hunused : candidate.endpoint.address.unusedZero = true)
    (rest : List UInt8) : read ⟨candidate.write ++ rest⟩ = some (candidate, ⟨rest⟩) := by
  obtain ⟨hkey, hipv4, hip, hport⟩ := accepted_iff.mp h
  rw [write, List.append_assoc, List.append_assoc]
  refine Option.bind_eq_some_iff.mpr ⟨_, readArray_append candidate.x25519PublicKey _, ?_⟩
  refine Option.bind_eq_some_iff.mpr ⟨_, readU32_beBytes candidate.endpoint.ipv4Network _, ?_⟩
  refine Option.bind_eq_some_iff.mpr ⟨_, readU16_beBytes (htons candidate.endpoint.port) rest, ?_⟩
  dsimp only
  rw [if_neg (by rw [all_zero_iff]; tauto), Endpoint.fromIpv4_ipv4Network hipv4 hunused]

theorem of_read (h : read reader = some (candidate, reader')) :
    (candidate.accepted = true ∧ candidate.endpoint.address.unusedZero = true) ∧
      reader.rest = candidate.write ++ reader'.rest := by
  obtain ⟨⟨key, reader₁⟩, hkey, h⟩ := Option.bind_eq_some_iff.mp h
  obtain ⟨⟨ip, reader₂⟩, hip, h⟩ := Option.bind_eq_some_iff.mp h
  obtain ⟨⟨port, reader₃⟩, hport, h⟩ := Option.bind_eq_some_iff.mp h
  dsimp only at hip hport h
  split_ifs at h with hrefused
  obtain ⟨rfl, rfl⟩ := Prod.mk.inj (Option.some.inj h)
  rw [all_zero_iff, not_or, not_or] at hrefused
  refine ⟨⟨accepted_iff.mpr ⟨hrefused.2.2, rfl, ?_, ?_⟩, Endpoint.unusedZero_fromIpv4 ip port⟩, ?_⟩
  · rw [Endpoint.ipv4Network_fromIpv4]
    exact hrefused.1
  · rw [Endpoint.port_fromIpv4, htons_htons]
    exact hrefused.2.1
  · rw [readArray_eq_some hkey, rest_of_readU32 hip, rest_of_readU16 hport, write, Endpoint.ipv4Network_fromIpv4,
      Endpoint.port_fromIpv4, htons_htons, List.append_assoc, List.append_assoc]

end Aegis2BootstrapCandidate

namespace Aegis2MembershipGrant

/-- Everything that is signed, in its order. -/
def layout (grant : Aegis2MembershipGrant) : List UInt8 :=
  grant.networkId.1 ++ (grant.issuerSigningPublicKey.1 ++ (grant.issuerNodeId.1 ++ (grant.enrollmentNonce.1 ++
    (beBytes 8 grant.issuedAt.toNat ++ (beBytes 8 grant.expiresAt.toNat ++ (beBytes 8 grant.capabilities.toNat ++
    (beBytes 8 grant.revocationEpoch.toNat ++ UInt8.ofNat grant.allowedPrefixes.length ::
    (grant.allowedPrefixes.flatMap Aegis2PrefixGrant.write ++ UInt8.ofNat grant.bootstrapCandidates.length ::
    grant.bootstrapCandidates.flatMap Aegis2BootstrapCandidate.write))))))))

/-- The fields in their order, up to the signature. -/
def read (reader : WireReader) : Option (Aegis2MembershipGrant × WireReader) := do
  let (networkId, reader) ← reader.readArray 32
  let (issuerSigningPublicKey, reader) ← reader.readArray 32
  let (issuerNodeId, reader) ← reader.readArray 32
  let (enrollmentNonce, reader) ← reader.readArray 32
  let (issuedAt, reader) ← reader.readU64
  let (expiresAt, reader) ← reader.readU64
  let (capabilities, reader) ← reader.readU64
  let (revocationEpoch, reader) ← reader.readU64
  let (prefixCount, reader) ← reader.readU8
  if AEGIS2_MAX_PREFIXES < prefixCount.toNat then none
  else
    let (allowedPrefixes, reader) ← readMany Aegis2PrefixGrant.read prefixCount.toNat reader
    let (candidateCount, reader) ← reader.readU8
    if AEGIS2_MAX_BOOTSTRAP_CANDIDATES < candidateCount.toNat then none
    else
      let (bootstrapCandidates, reader) ← readMany Aegis2BootstrapCandidate.read candidateCount.toNat reader
      some (⟨networkId, issuerSigningPublicKey, issuerNodeId, enrollmentNonce, issuedAt, expiresAt, capabilities,
        revocationEpoch, allowedPrefixes, bootstrapCandidates, FixedBytes.zero 64⟩, reader)

end Aegis2MembershipGrant

open Aegis2MembershipGrant

/-- `aegis2_signed_bytes`: the layout of a grant whose lists are short enough and whose entries are accepted. -/
def aegis2SignedBytes (grant : Aegis2MembershipGrant) : Option (List UInt8) :=
  if AEGIS2_MAX_PREFIXES < grant.allowedPrefixes.length ∨
      AEGIS2_MAX_BOOTSTRAP_CANDIDATES < grant.bootstrapCandidates.length then none
  else if grant.allowedPrefixes.all Aegis2PrefixGrant.accepted &&
      grant.bootstrapCandidates.all Aegis2BootstrapCandidate.accepted then some grant.layout
  else none

def encodeAegis2Grant (E : SigningScheme) (grant : Aegis2MembershipGrant)
    (issuerSigningPrivateKey : FixedBytes 32) : List UInt8 :=
  match aegis2SignedBytes grant with
  | none => []
  | some message =>
    match E.sign issuerSigningPrivateKey (AEGIS2_SIGNING_DOMAIN ++ message) with
    | none => []
    | some signature =>
      if !E.verify grant.issuerSigningPublicKey (AEGIS2_SIGNING_DOMAIN ++ message) signature then []
      else AEGIS2_PREFIX ++ base64urlEncode (message ++ signature.1)

def verifyAegis2GrantSignature (E : SignatureScheme) (grant : Aegis2MembershipGrant) : Bool :=
  match aegis2SignedBytes grant with
  | none => false
  | some message => E.verify grant.issuerSigningPublicKey (AEGIS2_SIGNING_DOMAIN ++ message) grant.signature

def decodeAegis2Grant (E : SignatureScheme) (text : List UInt8) : Option Aegis2MembershipGrant :=
  if AEGIS2_PREFIX.length + (AEGIS2_MAX_SIZE + 2) / 3 * 4 < (trimInvite text).length then none
  else do
    let bytes ← unarmor AEGIS2_PREFIX (trimInvite text)
    if bytes.length < AEGIS2_FIXED_SIZE - 64 + 64 ∨ AEGIS2_MAX_SIZE < bytes.length then none
    else
      let (grant, reader) ← Aegis2MembershipGrant.read ⟨bytes⟩
      let (signature, reader) ← reader.readArray 64
      if !reader.finished then none
      else if verifyAegis2GrantSignature E { grant with signature } then some { grant with signature } else none

/-! ## The layout -/

namespace Aegis2MembershipGrant

structure Signable (grant : Aegis2MembershipGrant) : Prop where
  prefixCount : grant.allowedPrefixes.length ≤ AEGIS2_MAX_PREFIXES
  candidateCount : grant.bootstrapCandidates.length ≤ AEGIS2_MAX_BOOTSTRAP_CANDIDATES
  prefixes : ∀ granted ∈ grant.allowedPrefixes, granted.accepted = true
  candidates : ∀ candidate ∈ grant.bootstrapCandidates, candidate.accepted = true

/-- The unused bytes of the addresses are zero. -/
def UnusedZero (grant : Aegis2MembershipGrant) : Prop :=
  ∀ candidate ∈ grant.bootstrapCandidates, candidate.endpoint.address.unusedZero = true

variable {grant grant' : Aegis2MembershipGrant} {message : List UInt8} {reader reader' : WireReader}

theorem aegis2SignedBytes_eq_some_iff :
    aegis2SignedBytes grant = some message ↔ grant.Signable ∧ message = grant.layout := by
  unfold aegis2SignedBytes
  split_ifs with hlong hall
  · refine iff_of_false nofun fun h => ?_
    rcases hlong with hlong | hlong
    · exact absurd hlong (Nat.not_lt.mpr h.1.prefixCount)
    · exact absurd hlong (Nat.not_lt.mpr h.1.candidateCount)
  · rw [not_or, Nat.not_lt, Nat.not_lt] at hlong
    rw [Bool.and_eq_true, List.all_eq_true, List.all_eq_true] at hall
    rw [Option.some.injEq, and_iff_right ⟨hlong.1, hlong.2, hall.1, hall.2⟩, eq_comm]
  · refine iff_of_false nofun fun h => hall ?_
    rw [Bool.and_eq_true, List.all_eq_true, List.all_eq_true]
    exact ⟨h.1.prefixes, h.1.candidates⟩

theorem read_layout (h : grant.Signable) (hunused : grant.UnusedZero) (rest : List UInt8) :
    read ⟨grant.layout ++ rest⟩ = some ({ grant with signature := FixedBytes.zero 64 }, ⟨rest⟩) := by
  have hprefixCount : (UInt8.ofNat grant.allowedPrefixes.length).toNat = grant.allowedPrefixes.length :=
    UInt8.toNat_ofNat_of_lt' (h.prefixCount.trans_lt (by decide))
  have hcandidateCount : (UInt8.ofNat grant.bootstrapCandidates.length).toNat = grant.bootstrapCandidates.length :=
    UInt8.toNat_ofNat_of_lt' (h.candidateCount.trans_lt (by decide))
  have hprefixes (rest : List UInt8) := readMany_flatMap (f := id)
    (fun granted hgranted rest => Aegis2PrefixGrant.read_write (h.prefixes granted hgranted) rest) rest
  have hcandidates := readMany_flatMap (f := id) (fun candidate hcandidate rest =>
    Aegis2BootstrapCandidate.read_write (h.candidates candidate hcandidate) (hunused candidate hcandidate) rest) rest
  rw [List.map_id] at hcandidates
  simp only [List.map_id] at hprefixes
  simp only [layout, List.append_assoc, List.cons_append]
  refine Option.bind_eq_some_iff.mpr ⟨_, readArray_append grant.networkId _, ?_⟩
  refine Option.bind_eq_some_iff.mpr ⟨_, readArray_append grant.issuerSigningPublicKey _, ?_⟩
  refine Option.bind_eq_some_iff.mpr ⟨_, readArray_append grant.issuerNodeId _, ?_⟩
  refine Option.bind_eq_some_iff.mpr ⟨_, readArray_append grant.enrollmentNonce _, ?_⟩
  refine Option.bind_eq_some_iff.mpr ⟨_, readU64_beBytes grant.issuedAt _, ?_⟩
  refine Option.bind_eq_some_iff.mpr ⟨_, readU64_beBytes grant.expiresAt _, ?_⟩
  refine Option.bind_eq_some_iff.mpr ⟨_, readU64_beBytes grant.capabilities _, ?_⟩
  refine Option.bind_eq_some_iff.mpr ⟨_, readU64_beBytes grant.revocationEpoch _, ?_⟩
  refine Option.bind_eq_some_iff.mpr ⟨_, readU8_cons (UInt8.ofNat grant.allowedPrefixes.length) _, ?_⟩
  dsimp only
  rw [hprefixCount, if_neg (Nat.not_lt.mpr h.prefixCount)]
  refine Option.bind_eq_some_iff.mpr ⟨_, hprefixes _, ?_⟩
  refine Option.bind_eq_some_iff.mpr ⟨_, readU8_cons (UInt8.ofNat grant.bootstrapCandidates.length) _, ?_⟩
  dsimp only
  rw [hcandidateCount, if_neg (Nat.not_lt.mpr h.candidateCount)]
  exact Option.bind_eq_some_iff.mpr ⟨_, hcandidates, rfl⟩

theorem of_read (h : read reader = some (grant, reader')) :
    grant.Signable ∧ grant.UnusedZero ∧ reader.rest = grant.layout ++ reader'.rest := by
  obtain ⟨⟨networkId, reader₁⟩, hnetworkId, h⟩ := Option.bind_eq_some_iff.mp h
  obtain ⟨⟨issuerKey, reader₂⟩, hissuerKey, h⟩ := Option.bind_eq_some_iff.mp h
  obtain ⟨⟨issuerNode, reader₃⟩, hissuerNode, h⟩ := Option.bind_eq_some_iff.mp h
  obtain ⟨⟨nonce, reader₄⟩, hnonce, h⟩ := Option.bind_eq_some_iff.mp h
  obtain ⟨⟨issuedAt, reader₅⟩, hissuedAt, h⟩ := Option.bind_eq_some_iff.mp h
  obtain ⟨⟨expiresAt, reader₆⟩, hexpiresAt, h⟩ := Option.bind_eq_some_iff.mp h
  obtain ⟨⟨capabilities, reader₇⟩, hcapabilities, h⟩ := Option.bind_eq_some_iff.mp h
  obtain ⟨⟨epoch, reader₈⟩, hepoch, h⟩ := Option.bind_eq_some_iff.mp h
  obtain ⟨⟨prefixCount, reader₉⟩, hprefixCount, h⟩ := Option.bind_eq_some_iff.mp h
  dsimp only at hissuerKey hissuerNode hnonce hissuedAt hexpiresAt hcapabilities hepoch hprefixCount h
  split_ifs at h with hprefixesLong
  obtain ⟨⟨prefixes, reader₁₀⟩, hprefixes, h⟩ := Option.bind_eq_some_iff.mp h
  obtain ⟨⟨candidateCount, reader₁₁⟩, hcandidateCount, h⟩ := Option.bind_eq_some_iff.mp h
  dsimp only at hcandidateCount h
  split_ifs at h with hcandidatesLong
  obtain ⟨⟨candidates, reader₁₂⟩, hcandidates, h⟩ := Option.bind_eq_some_iff.mp h
  obtain ⟨rfl, rfl⟩ := Prod.mk.inj (Option.some.inj h)
  obtain ⟨hprefixLength, hprefixAccepted, hprefixBytes⟩ :=
    of_readMany (fun _ _ _ => Aegis2PrefixGrant.of_read) hprefixes
  obtain ⟨hcandidateLength, hcandidateAccepted, hcandidateBytes⟩ :=
    of_readMany (fun _ _ _ => Aegis2BootstrapCandidate.of_read) hcandidates
  refine ⟨⟨?_, ?_, hprefixAccepted, fun candidate hcandidate => (hcandidateAccepted candidate hcandidate).1⟩,
    fun candidate hcandidate => (hcandidateAccepted candidate hcandidate).2, ?_⟩
  · rw [hprefixLength]
    exact Nat.not_lt.mp hprefixesLong
  · rw [hcandidateLength]
    exact Nat.not_lt.mp hcandidatesLong
  · rw [readArray_eq_some hnetworkId, readArray_eq_some hissuerKey, readArray_eq_some hissuerNode,
      readArray_eq_some hnonce, rest_of_readU64 hissuedAt, rest_of_readU64 hexpiresAt, rest_of_readU64 hcapabilities,
      rest_of_readU64 hepoch, rest_of_readU8 hprefixCount, hprefixBytes, rest_of_readU8 hcandidateCount,
      hcandidateBytes]
    simp only [layout, hprefixLength, hcandidateLength, UInt8.ofNat_toNat, List.append_assoc, List.cons_append]

theorem length_layout (grant : Aegis2MembershipGrant) :
    grant.layout.length + 64
      = AEGIS2_FIXED_SIZE + grant.allowedPrefixes.length * 5 + grant.bootstrapCandidates.length * 38 := by
  have hprefixes : (grant.allowedPrefixes.flatMap Aegis2PrefixGrant.write).length
      = grant.allowedPrefixes.length * 5 := by simp [List.length_flatMap]
  have hcandidates : (grant.bootstrapCandidates.flatMap Aegis2BootstrapCandidate.write).length
      = grant.bootstrapCandidates.length * 38 := by simp [List.length_flatMap]
  simp only [layout, List.length_append, List.length_cons, length_beBytes, grant.networkId.2,
    grant.issuerSigningPublicKey.2, grant.issuerNodeId.2, grant.enrollmentNonce.2, hprefixes, hcandidates,
    AEGIS2_FIXED_SIZE]
  omega

theorem eq_of_layout_eq (h : grant.Signable) (h' : grant'.Signable) (hunused : grant.UnusedZero)
    (hunused' : grant'.UnusedZero) (hlayout : grant.layout = grant'.layout) :
    grant' = { grant with signature := grant'.signature } := by
  have hread := read_layout h hunused []
  rw [hlayout, read_layout h' hunused' []] at hread
  have hfields := (Prod.mk.inj (Option.some.inj hread)).1
  exact congrArg (fun fields : Aegis2MembershipGrant => { fields with signature := grant'.signature }) hfields

end Aegis2MembershipGrant

/-! ## Texts -/

variable {E : SignatureScheme} {grant : Aegis2MembershipGrant} {text : List UInt8}

theorem decodeAegis2Grant_armored {signature : IdentitySignature} (h : grant.Signable) (hunused : grant.UnusedZero)
    (hverify : E.verify grant.issuerSigningPublicKey (AEGIS2_SIGNING_DOMAIN ++ grant.layout) signature = true) :
    decodeAegis2Grant E (AEGIS2_PREFIX ++ base64urlEncode (grant.layout ++ signature.1))
      = some { grant with signature } := by
  have hlength : (grant.layout ++ signature.1).length
      = AEGIS2_FIXED_SIZE + grant.allowedPrefixes.length * 5 + grant.bootstrapCandidates.length * 38 := by
    rw [List.length_append, signature.2, length_layout]
  have hmax : (grant.layout ++ signature.1).length ≤ AEGIS2_MAX_SIZE := by
    have hprefixCount := h.prefixCount
    have hcandidateCount := h.candidateCount
    rw [hlength, AEGIS2_MAX_SIZE]
    omega
  have hfixed : AEGIS2_FIXED_SIZE - 64 + 64 ≤ (grant.layout ++ signature.1).length := by
    rw [hlength, show AEGIS2_FIXED_SIZE - 64 + 64 = AEGIS2_FIXED_SIZE from rfl]
    omega
  have htext := length_base64urlEncode_le (grant.layout ++ signature.1)
  have hne : grant.layout ++ signature.1 ≠ [] := by
    intro hnil
    rw [hnil, List.length_nil, AEGIS2_FIXED_SIZE] at hlength
    omega
  have hsigned : aegis2SignedBytes { grant with signature } = some grant.layout :=
    aegis2SignedBytes_eq_some_iff.mpr ⟨⟨h.prefixCount, h.candidateCount, h.prefixes, h.candidates⟩, rfl⟩
  have hsignature := readArray_append signature []
  rw [List.append_nil] at hsignature
  rw [decodeAegis2Grant, trimInvite_armored (by decide +kernel), if_neg ?_]
  · refine Option.bind_eq_some_iff.mpr ⟨_, unarmor_eq_some_iff.mpr ⟨hne, rfl⟩, ?_⟩
    rw [if_neg (by omega)]
    refine Option.bind_eq_some_iff.mpr ⟨_, read_layout h hunused signature.1, ?_⟩
    refine Option.bind_eq_some_iff.mpr ⟨_, hsignature, ?_⟩
    show (if verifyAegis2GrantSignature E { grant with signature } = true then _ else _) = _
    rw [verifyAegis2GrantSignature, hsigned]
    exact if_pos hverify
  · rw [List.length_append]
    omega

theorem of_decodeAegis2Grant (h : decodeAegis2Grant E text = some grant) :
    grant.UnusedZero ∧ ∃ message, aegis2SignedBytes grant = some message ∧
      E.verify grant.issuerSigningPublicKey (AEGIS2_SIGNING_DOMAIN ++ message) grant.signature = true ∧
      AEGIS2_PREFIX ++ base64urlEncode (message ++ grant.signature.1) = trimInvite text := by
  unfold decodeAegis2Grant at h
  split_ifs at h with hlong
  obtain ⟨bytes, harmor, h⟩ := Option.bind_eq_some_iff.mp h
  split_ifs at h with hsize
  obtain ⟨⟨fields, reader₁⟩, hread, h⟩ := Option.bind_eq_some_iff.mp h
  obtain ⟨⟨signature, reader₂⟩, hsignature, h⟩ := Option.bind_eq_some_iff.mp h
  dsimp only at hsignature h
  split_ifs at h with hfinished hverify
  obtain rfl := Option.some.inj h
  obtain ⟨hsignable, hunused, hbytes⟩ := Aegis2MembershipGrant.of_read hread
  have hsigned : aegis2SignedBytes { fields with signature } = some fields.layout :=
    aegis2SignedBytes_eq_some_iff.mpr
      ⟨⟨hsignable.prefixCount, hsignable.candidateCount, hsignable.prefixes, hsignable.candidates⟩, rfl⟩
  have hend : reader₂.rest = [] := by simpa [finished] using hfinished
  rw [verifyAegis2GrantSignature, hsigned] at hverify
  refine ⟨hunused, fields.layout, hsigned, hverify, ?_⟩
  have hall : bytes = fields.layout ++ signature.1 := by
    rw [show bytes = _ from hbytes, readArray_eq_some hsignature, hend, List.append_nil]
  rw [← hall, (unarmor_eq_some_iff.mp harmor).2]

/-- A signature binds the whole grant: the signed bytes determine every field but the signature, a text that was
written decodes to the grant with its signature, and a grant that was decoded is written as the text without the
blanks and quotes around it. If whatever verifies under an issuer's key is the signed bytes of a grant that
was issued, then whatever decodes under that key is a grant that was issued. -/
theorem grant_signatures_bind :
    (∀ grant grant' message, aegis2SignedBytes grant = some message → aegis2SignedBytes grant' = some message →
      grant.UnusedZero → grant'.UnusedZero → grant' = { grant with signature := grant'.signature }) ∧
    (∀ (E : SigningScheme) grant issuerSigningPrivateKey, grant.UnusedZero →
      encodeAegis2Grant E grant issuerSigningPrivateKey ≠ [] →
      ∃ message signature, aegis2SignedBytes grant = some message ∧
        E.sign issuerSigningPrivateKey (AEGIS2_SIGNING_DOMAIN ++ message) = some signature ∧
        decodeAegis2Grant E.toSignatureScheme (encodeAegis2Grant E grant issuerSigningPrivateKey)
          = some { grant with signature }) ∧
    (∀ (E : SignatureScheme) text grant, decodeAegis2Grant E text = some grant →
      ∃ message, aegis2SignedBytes grant = some message ∧
        AEGIS2_PREFIX ++ base64urlEncode (message ++ grant.signature.1) = trimInvite text) ∧
    (∀ (E : SignatureScheme) (issuer : SigningKey) (Issued : Aegis2MembershipGrant → Prop),
      (∀ grant, Issued grant → grant.UnusedZero) →
      (∀ message signature, E.verify issuer (AEGIS2_SIGNING_DOMAIN ++ message) signature = true →
        ∃ grant, Issued grant ∧ aegis2SignedBytes grant = some message) →
      ∀ text grant, decodeAegis2Grant E text = some grant → grant.issuerSigningPublicKey = issuer →
        ∃ issued, Issued issued ∧ grant = { issued with signature := grant.signature }) := by
  have hbinds : ∀ {grant grant' message}, aegis2SignedBytes grant = some message →
      aegis2SignedBytes grant' = some message → grant.UnusedZero → grant'.UnusedZero →
      grant' = { grant with signature := grant'.signature } := by
    intro grant grant' message h h' hunused hunused'
    obtain ⟨hsignable, hmessage⟩ := aegis2SignedBytes_eq_some_iff.mp h
    obtain ⟨hsignable', hmessage'⟩ := aegis2SignedBytes_eq_some_iff.mp h'
    exact eq_of_layout_eq hsignable hsignable' hunused hunused' (hmessage.symm.trans hmessage')
  refine ⟨fun grant grant' message => hbinds, fun E grant key hunused hencode => ?_, fun E text grant h => ?_,
    fun E issuer Issued hunused hunforgeable text grant h hissuer => ?_⟩
  · unfold encodeAegis2Grant at hencode ⊢
    cases hsigned : aegis2SignedBytes grant with
    | none =>
      rw [hsigned] at hencode
      exact absurd rfl hencode
    | some message =>
      obtain ⟨hsignable, rfl⟩ := aegis2SignedBytes_eq_some_iff.mp hsigned
      simp only [hsigned] at hencode
      cases hsign : E.sign key (AEGIS2_SIGNING_DOMAIN ++ grant.layout) with
      | none =>
        rw [hsign] at hencode
        exact absurd rfl hencode
      | some signature =>
        simp only [hsign] at hencode
        split_ifs at hencode with hverify
        · exact absurd rfl hencode
        · refine ⟨grant.layout, signature, rfl, hsign, ?_⟩
          simp only [hsign, if_neg hverify]
          exact decodeAegis2Grant_armored hsignable hunused (by simpa using hverify)
  · obtain ⟨-, message, hsigned, -, htext⟩ := of_decodeAegis2Grant h
    exact ⟨message, hsigned, htext⟩
  · obtain ⟨hzero, message, hsigned, hverify, -⟩ := of_decodeAegis2Grant h
    rw [hissuer] at hverify
    obtain ⟨issued, hissued, hbytes⟩ := hunforgeable message grant.signature hverify
    exact ⟨issued, hissued, hbinds hbytes hsigned (hunused issued hissued) hzero⟩

/-- A grant is signed without the unused bytes of its addresses, so under no scheme does the text of one with
such bytes decode to it; there are schemes under which there is a text. -/
theorem grant_unused_byte :
    let address : IPAddress := ⟨.ipv4, FixedBytes.copy 16 [10, 0, 0, 1, 1]⟩
    let grant : Aegis2MembershipGrant :=
      { bootstrapCandidates := [⟨FixedBytes.copy 32 [1], ⟨address, 7000⟩⟩] }
    (∀ (E : SigningScheme) key signature,
      decodeAegis2Grant E.toSignatureScheme (encodeAegis2Grant E grant key) ≠ some { grant with signature }) ∧
    ∃ (E : SigningScheme) (key : FixedBytes 32), encodeAegis2Grant E grant key ≠ [] := by
  refine ⟨fun E key signature h => ?_, ⟨⟨fun _ _ _ => true⟩, fun _ _ => some (FixedBytes.zero 64)⟩,
    FixedBytes.zero 32, by decide +kernel⟩
  have hunused := (of_decodeAegis2Grant h).1 _ List.mem_cons_self
  exact absurd hunused (by decide +kernel)

end Aegis
