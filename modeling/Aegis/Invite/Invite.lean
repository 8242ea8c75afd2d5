import Aegis.Invite.Base64Url
import Aegis.Net.Ipv4
import Mathlib.Data.List.DropRight

/-!
# Invites

`encode_invite` and `decode_invite` of `invite/invite.cpp`: the text `AEGIS1:` and the base64url of a binary
layout with a variable-length name at its end. The decoder removes blanks and quotes around the text and
refuses text that is not what the encoder would make of the bytes, so there is one text for each payload.
-/

namespace Aegis

def INVITE_PREFIX : List UInt8 := asciiBytes "AEGIS1:"
def INVITE_FIXED_SIZE : Nat := 108
def INVITE_MAX_NAME_SIZE : Nat := 64

/-! ## Text around bytes -/

/-- The characters that are removed around an invite: space, tabulator, return, newline and the quote. -/
def inviteBlank (char : UInt8) : Bool := [32, 9, 13, 10, 34].contains char

/-- The text from the first to the last character that is not removed. -/
def trimInvite (text : List UInt8) : List UInt8 := (text.dropWhile inviteBlank).rdropWhile inviteBlank

/-- The bytes of a text that starts with a header; base64url other than the encoder's is refused. -/
def unarmor (header clean : List UInt8) : Option (List UInt8) :=
  if clean.length ≤ header.length ∨ clean.take header.length ≠ header then none
  else do
    let bytes ← base64urlDecode (clean.drop header.length)
    if base64urlEncode bytes ≠ clean.drop header.length then none else some bytes

theorem base64urlEncode_eq_nil {data : List UInt8} (h : base64urlEncode data = []) : data = [] := by
  have hdecode := base64urlDecode_encode data
  rw [h] at hdecode
  exact (Option.some.inj hdecode).symm

theorem unarmor_eq_some_iff {header clean bytes : List UInt8} :
    unarmor header clean = some bytes ↔ bytes ≠ [] ∧ clean = header ++ base64urlEncode bytes := by
  unfold unarmor
  constructor
  · intro h
    split_ifs at h with hheader
    obtain ⟨data, -, h⟩ := Option.bind_eq_some_iff.mp h
    split_ifs at h with hcanonical
    obtain rfl := Option.some.inj h
    rw [not_or, not_not, Nat.not_le] at hheader
    rw [not_not] at hcanonical
    refine ⟨?_, ?_⟩
    · rintro rfl
      have hdrop : (clean.drop header.length).length = 0 := by rw [← hcanonical]; rfl
      rw [List.length_drop] at hdrop
      omega
    · rw [hcanonical]
      conv_lhs => rw [← List.take_append_drop header.length clean, hheader.2]
  · rintro ⟨hbytes, rfl⟩
    have hlength : 0 < (base64urlEncode bytes).length :=
      List.length_pos_iff.mpr fun h => hbytes (base64urlEncode_eq_nil h)
    rw [if_neg ?_, List.drop_left, base64urlDecode_encode]
    · exact if_neg (not_not.mpr rfl)
    · rw [not_or, not_not, List.take_left, List.length_append]
      exact ⟨by omega, rfl⟩

theorem trimInvite_eq_self {text : List UInt8} (h : ∀ char ∈ text, inviteBlank char = false) :
    trimInvite text = text := by
  have hfirst : text.dropWhile inviteBlank = text := by
    rw [List.dropWhile_eq_self_iff]
    intro hpos
    rw [h _ (List.getElem_mem hpos)]
    decide
  rw [trimInvite, hfirst, List.rdropWhile_eq_self_iff]
  intro hne
  rw [h _ (List.getLast_mem hne)]
  decide

theorem inviteBlank_of_mem {char : UInt8} (h : char ∈ BASE64URL_CHARS) : inviteBlank char = false := by
  have hall : ∀ char ∈ BASE64URL_CHARS, inviteBlank char = false := by decide +kernel
  exact hall char h

theorem trimInvite_armored {header : List UInt8} (hheader : ∀ char ∈ header, inviteBlank char = false)
    (bytes : List UInt8) : trimInvite (header ++ base64urlEncode bytes) = header ++ base64urlEncode bytes := by
  apply trimInvite_eq_self
  intro char hchar
  rcases List.mem_append.mp hchar with hchar | hchar
  · exact hheader char hchar
  · exact inviteBlank_of_mem (mem_base64urlEncode hchar)

/-! ## Payloads -/

structure InvitePayload where
  networkId : NetworkId := FixedBytes.zero 32
  bootstrapPubkey : FixedBytes 32 := FixedBytes.zero 32
  creatorNodeId : NodeId := FixedBytes.zero 32
  bootstrapEndpoint : Endpoint := {}
  bootstrapPrefix : UInt32 := 0
  bootstrapPrefixLen : UInt8 := 0
  networkName : List UInt8 := []
deriving DecidableEq

namespace InvitePayload

def nameLen (payload : InvitePayload) : Nat := min payload.networkName.length INVITE_MAX_NAME_SIZE

/-- The binary layout. -/
def bytes (payload : InvitePayload) : List UInt8 :=
  payload.networkId.1 ++ (payload.bootstrapPubkey.1 ++ (payload.creatorNodeId.1 ++
    (beBytes 4 payload.bootstrapEndpoint.ipv4Network.toNat ++ (beBytes 2 (htons payload.bootstrapEndpoint.port).toNat ++
    (beBytes 4 payload.bootstrapPrefix.toNat ++ payload.bootstrapPrefixLen :: UInt8.ofNat payload.nameLen ::
    payload.networkName.take payload.nameLen)))))

/-- The fields in their order, up to the end of the bytes. -/
def read (bytes : List UInt8) : Option InvitePayload := do
  let (networkId, reader) ← (WireReader.mk bytes).readArray 32
  let (bootstrapPubkey, reader) ← reader.readArray 32
  let (creatorNodeId, reader) ← reader.readArray 32
  let (endpointIp, reader) ← reader.readU32
  let (endpointPort, reader) ← reader.readU16
  let (bootstrapPrefix, reader) ← reader.readU32
  let (bootstrapPrefixLen, reader) ← reader.readU8
  let (nameLen, reader) ← reader.readU8
  if 32 < bootstrapPrefixLen ∨ INVITE_MAX_NAME_SIZE < nameLen.toNat then none
  else
    let (networkName, reader) ← reader.readBytes nameLen.toNat
    if !reader.finished then none
    else some ⟨networkId, bootstrapPubkey, creatorNodeId, Endpoint.fromIpv4 endpointIp endpointPort, bootstrapPrefix,
      bootstrapPrefixLen, networkName⟩

end InvitePayload

def encodeInvite (payload : InvitePayload) : List UInt8 :=
  if !payload.bootstrapEndpoint.isIpv4 then [] else INVITE_PREFIX ++ base64urlEncode payload.bytes

def decodeInvite (text : List UInt8) : Option InvitePayload := do
  let bytes ← unarmor INVITE_PREFIX (trimInvite text)
  if bytes.length < INVITE_FIXED_SIZE then none else InvitePayload.read bytes

namespace InvitePayload

/-- What an invite can carry. -/
structure Carried (payload : InvitePayload) : Prop where
  ipv4 : payload.bootstrapEndpoint.isIpv4 = true
  unused : payload.bootstrapEndpoint.address.unusedZero = true
  prefixLen : payload.bootstrapPrefixLen ≤ 32
  name : payload.networkName.length ≤ INVITE_MAX_NAME_SIZE

variable {payload : InvitePayload} {data : List UInt8}

theorem length_bytes (payload : InvitePayload) : INVITE_FIXED_SIZE ≤ payload.bytes.length := by
  simp only [bytes, List.length_append, List.length_cons, length_beBytes, payload.networkId.2,
    payload.bootstrapPubkey.2, payload.creatorNodeId.2, INVITE_FIXED_SIZE]
  omega

theorem read_bytes (h : payload.Carried) : read payload.bytes = some payload := by
  have hname : payload.nameLen = payload.networkName.length := Nat.min_eq_left h.name
  have hlen : (UInt8.ofNat payload.networkName.length).toNat = payload.networkName.length :=
    UInt8.toNat_ofNat_of_lt' (h.name.trans_lt (by decide))
  have hread := @WireReader.readBytes_append (UInt8.ofNat payload.networkName.length).toNat payload.networkName []
    hlen.symm
  rw [List.append_nil] at hread
  have haccepted : ¬ (32 < payload.bootstrapPrefixLen ∨
      INVITE_MAX_NAME_SIZE < (UInt8.ofNat payload.networkName.length).toNat) := by
    rw [hlen, not_or]
    exact ⟨UInt8.not_lt.mpr h.prefixLen, Nat.not_lt.mpr h.name⟩
  rw [bytes, hname, List.take_length]
  refine Option.bind_eq_some_iff.mpr ⟨_, WireReader.readArray_append payload.networkId _, ?_⟩
  refine Option.bind_eq_some_iff.mpr ⟨_, WireReader.readArray_append payload.bootstrapPubkey _, ?_⟩
  refine Option.bind_eq_some_iff.mpr ⟨_, WireReader.readArray_append payload.creatorNodeId _, ?_⟩
  refine Option.bind_eq_some_iff.mpr ⟨_, WireReader.readU32_beBytes payload.bootstrapEndpoint.ipv4Network _, ?_⟩
  refine Option.bind_eq_some_iff.mpr ⟨_, WireReader.readU16_beBytes (htons payload.bootstrapEndpoint.port) _, ?_⟩
  refine Option.bind_eq_some_iff.mpr ⟨_, WireReader.readU32_beBytes payload.bootstrapPrefix _, ?_⟩
  refine Option.bind_eq_some_iff.mpr ⟨_, WireReader.readU8_cons payload.bootstrapPrefixLen _, ?_⟩
  refine Option.bind_eq_some_iff.mpr ⟨_, WireReader.readU8_cons (UInt8.ofNat payload.networkName.length) _, ?_⟩
  dsimp only
  rw [if_neg haccepted]
  refine Option.bind_eq_some_iff.mpr ⟨_, hread, ?_⟩
  rw [Endpoint.fromIpv4_ipv4Network h.ipv4 h.unused]
  rfl

theorem of_read (h : read data = some payload) : payload.Carried ∧ data = payload.bytes := by
  obtain ⟨⟨networkId, reader₁⟩, hnetworkId, h⟩ := Option.bind_eq_some_iff.mp h
  obtain ⟨⟨bootstrapPubkey, reader₂⟩, hpubkey, h⟩ := Option.bind_eq_some_iff.mp h
  obtain ⟨⟨creatorNodeId, reader₃⟩, hcreator, h⟩ := Option.bind_eq_some_iff.mp h
  obtain ⟨⟨ip, reader₄⟩, hip, h⟩ := Option.bind_eq_some_iff.mp h
  obtain ⟨⟨port, reader₅⟩, hport, h⟩ := Option.bind_eq_some_iff.mp h
  obtain ⟨⟨network, reader₆⟩, hnetwork, h⟩ := Option.bind_eq_some_iff.mp h
  obtain ⟨⟨length, reader₇⟩, hlength, h⟩ := Option.bind_eq_some_iff.mp h
  obtain ⟨⟨nameLen, reader₈⟩, hnameLen, h⟩ := Option.bind_eq_some_iff.mp h
  dsimp only at hpubkey hcreator hip hport hnetwork hlength hnameLen h
  split_ifs at h with hrefused
  obtain ⟨⟨name, reader₉⟩, hname, h⟩ := Option.bind_eq_some_iff.mp h
  dsimp only at h
  split_ifs at h with hfinished
  obtain rfl := Option.some.inj h
  rw [not_or, UInt8.not_lt, Nat.not_lt] at hrefused
  obtain ⟨hnameLength, hnameRest⟩ := WireReader.readBytes_eq_some hname
  have hend : reader₉.rest = [] := by simpa [WireReader.finished] using hfinished
  refine ⟨⟨rfl, Endpoint.unusedZero_fromIpv4 ip port, hrefused.1, hnameLength ▸ hrefused.2⟩, ?_⟩
  have hmin : min name.length INVITE_MAX_NAME_SIZE = name.length := Nat.min_eq_left (hnameLength ▸ hrefused.2)
  rw [show data = _ from WireReader.readArray_eq_some hnetworkId, WireReader.readArray_eq_some hpubkey,
    WireReader.readArray_eq_some hcreator, WireReader.rest_of_readU32 hip, WireReader.rest_of_readU16 hport,
    WireReader.rest_of_readU32 hnetwork, WireReader.rest_of_readU8 hlength, WireReader.rest_of_readU8 hnameLen,
    hnameRest, hend, List.append_nil]
  simp only [bytes, InvitePayload.nameLen, Endpoint.ipv4Network_fromIpv4, Endpoint.port_fromIpv4, htons_htons, hmin,
    List.take_length]
  rw [hnameLength, UInt8.ofNat_toNat]

end InvitePayload

open InvitePayload

variable {payload : InvitePayload} {text : List UInt8}

theorem decodeInvite_encodeInvite (h : payload.Carried) : decodeInvite (encodeInvite payload) = some payload := by
  have hlength := payload.length_bytes
  have hne : payload.bytes ≠ [] := by
    intro hnil
    rw [hnil] at hlength
    exact absurd hlength (by decide)
  rw [encodeInvite, h.ipv4, if_neg (by decide), decodeInvite, trimInvite_armored (by decide +kernel),
    unarmor_eq_some_iff.mpr ⟨hne, rfl⟩]
  show (if payload.bytes.length < INVITE_FIXED_SIZE then none else read payload.bytes) = some payload
  rw [if_neg (Nat.not_lt.mpr hlength), read_bytes h]

theorem encodeInvite_of_decodeInvite (h : decodeInvite text = some payload) :
    encodeInvite payload = trimInvite text := by
  obtain ⟨bytes, harmor, h⟩ := Option.bind_eq_some_iff.mp h
  split_ifs at h with hshort
  obtain ⟨hcarried, rfl⟩ := of_read h
  rw [encodeInvite, hcarried.ipv4, if_neg (by decide), (unarmor_eq_some_iff.mp harmor).2]

/-- Invites are canonical: what can be carried reads back, what was read is written as the text without the
blanks and quotes around it, and there is one such text for each payload. -/
theorem invites_canonical :
    (∀ payload : InvitePayload, payload.bootstrapEndpoint.isIpv4 = true →
      payload.bootstrapEndpoint.address.unusedZero = true → payload.bootstrapPrefixLen ≤ 32 →
      payload.networkName.length ≤ 64 → decodeInvite (encodeInvite payload) = some payload) ∧
    (∀ text payload, decodeInvite text = some payload → encodeInvite payload = trimInvite text) ∧
    (∀ text text' payload, decodeInvite text = some payload → decodeInvite text' = some payload →
      trimInvite text = trimInvite text') := by
  refine ⟨fun payload hipv4 hunused hlen hname => ?_, fun text payload h => encodeInvite_of_decodeInvite h,
    fun text text' payload h h' => ?_⟩
  · exact decodeInvite_encodeInvite ⟨hipv4, hunused, hlen, hname⟩
  · rw [← encodeInvite_of_decodeInvite h, encodeInvite_of_decodeInvite h']

end Aegis
