import Aegis.Net.Ipv4

/-!
# STUN binding responses

`parse_stun_binding_response` of `stun/stun.cpp`: the public endpoint that a server saw, from the one
XOR-MAPPED-ADDRESS attribute of a binding response. The attributes of a message are a row of typed values,
each padded to four bytes. The loop over them is shown to be a fold over that row, which exists for every
message that is accepted.

As everywhere in the model the port of an endpoint is the port number; the source keeps `htons` of it.
-/

namespace Aegis

def STUN_MAGIC_COOKIE : UInt32 := 0x2112A442

def IPAddress.fromIpv6 (value : FixedBytes 16) : IPAddress where
  family := .ipv6
  bytes := value

/-- The bytes of an array, each xored with the byte of a mask. -/
def FixedBytes.xor {n : Nat} (bytes mask : FixedBytes n) : FixedBytes n :=
  ⟨List.zipWith (· ^^^ ·) bytes.1 mask.1, by rw [List.length_zipWith, bytes.2, mask.2, Nat.min_self]⟩

/-- The IPv6 mask is the magic cookie followed by the transaction id. -/
def stunMask (transactionId : FixedBytes 12) : FixedBytes 16 :=
  ⟨beBytes 4 STUN_MAGIC_COOKIE.toNat ++ transactionId.1,
    by rw [List.length_append, length_beBytes, transactionId.2]⟩

def paddedLen (length : Nat) : Nat := (length + 3) / 4 * 4

theorem le_paddedLen (length : Nat) : length ≤ paddedLen length := by
  unfold paddedLen
  omega

/-- The value of an XOR-MAPPED-ADDRESS attribute; a second one is refused. -/
def readMappedAddress (transactionId : FixedBytes 12) (attrLen : UInt16) (value : List UInt8)
    (mapped : Option Endpoint) : Option Endpoint := do
  let (reserved, address) ← (WireReader.mk value).readU8
  let (family, address) ← address.readU8
  let (xorPort, address) ← address.readU16
  if reserved ≠ 0 then none
  else if mapped.isSome ∨ (family ≠ 0x01 ∧ family ≠ 0x02) then none
  else
    let port := xorPort ^^^ (STUN_MAGIC_COOKIE >>> 16).toUInt16
    if family = 0x01 then
      if attrLen ≠ 8 then none
      else do
        let (xorIp, address) ← address.readU32
        if !address.finished then none
        else some ⟨IPAddress.fromIpv4 (htonl (htonl (xorIp ^^^ STUN_MAGIC_COOKIE))), port⟩
    else if attrLen ≠ 20 then none
    else do
      let (xorIp, address) ← address.readArray 16
      if !address.finished then none
      else some ⟨IPAddress.fromIpv6 (xorIp.xor (stunMask transactionId)), port⟩

theorem readMappedAddress_some (transactionId : FixedBytes 12) (attrLen : UInt16) (value : List UInt8)
    (endpoint : Endpoint) : readMappedAddress transactionId attrLen value (some endpoint) = none := by
  simp [readMappedAddress]

/-- The loop over the attributes. Every turn but the last reads a type and a length, so as many turns as there
are bytes in the message are enough. -/
def readAttributes (transactionId : FixedBytes 12) : Nat → WireReader → Option Endpoint → Option Endpoint
  | 0, _, _ => none
  | turns + 1, reader, mapped =>
    if reader.finished then mapped
    else do
      let (attrType, reader) ← reader.readU16
      let (attrLen, reader) ← reader.readU16
      let (value, reader) ← reader.readBytes attrLen.toNat
      let (_, reader) ← reader.readBytes (paddedLen attrLen.toNat - attrLen.toNat)
      if attrType ≠ 0x0020 then readAttributes transactionId turns reader mapped
      else do
        let endpoint ← readMappedAddress transactionId attrLen value mapped
        readAttributes transactionId turns reader (some endpoint)

def parseStunBindingResponse (data : List UInt8) (expectedTxId : Option (FixedBytes 12)) : Option Endpoint :=
  if data.length < 20 then none
  else do
    let (msgType, reader) ← (WireReader.mk data).readU16
    let (msgLen, reader) ← reader.readU16
    let (cookie, reader) ← reader.readU32
    let (transactionId, reader) ← reader.readArray 12
    if (msgType ≠ 0x0101 ∧ msgType ≠ 0x0111) ∨ cookie ≠ STUN_MAGIC_COOKIE ∨ msgLen.toNat % 4 ≠ 0 ∨
        data.length ≠ 20 + msgLen.toNat then none
    else if expectedTxId.any (· ≠ transactionId) then none
    else readAttributes transactionId data.length reader none

/-! ## Attributes -/

/-- An attribute of a message, with whatever its padding holds. -/
structure StunAttribute where
  type : UInt16
  value : List UInt8
  padding : List UInt8
  value_lt : value.length < 2 ^ 16
  padded : value.length + padding.length = paddedLen value.length

namespace StunAttribute

def bytes (attr : StunAttribute) : List UInt8 :=
  beBytes 2 attr.type.toNat ++ (beBytes 2 attr.value.length ++ (attr.value ++ attr.padding))

theorem length_bytes (attr : StunAttribute) : 4 ≤ attr.bytes.length := by
  simp only [bytes, List.length_append, length_beBytes]
  omega

/-- What an attribute does to the mapped address. -/
def step (transactionId : FixedBytes 12) (mapped : Option Endpoint) (attr : StunAttribute) :
    Option (Option Endpoint) :=
  if attr.type ≠ 0x0020 then some mapped
  else (readMappedAddress transactionId (UInt16.ofNat attr.value.length) attr.value mapped).map some

end StunAttribute

open StunAttribute WireReader

section Messages

variable {transactionId : FixedBytes 12}

theorem readAttributes_cons (attr : StunAttribute) (rest : List UInt8) (turns : Nat) (mapped : Option Endpoint) :
    readAttributes transactionId (turns + 1) ⟨attr.bytes ++ rest⟩ mapped
      = (attr.step transactionId mapped).bind (readAttributes transactionId turns ⟨rest⟩) := by
  obtain ⟨type, value, padding, hlt, hpadded⟩ := attr
  have hbytes : (WireReader.mk (bytes ⟨type, value, padding, hlt, hpadded⟩ ++ rest)).finished = false := by
    simp [finished, bytes, beBytes]
  have hvalue : (UInt16.ofNat value.length).toNat = value.length := UInt16.toNat_ofNat_of_lt' hlt
  have hread : (WireReader.mk (value ++ (padding ++ rest))).readBytes (UInt16.ofNat value.length).toNat
      = some (value, ⟨padding ++ rest⟩) := readBytes_append hvalue.symm
  have hskip : (WireReader.mk (padding ++ rest)).readBytes
      (paddedLen (UInt16.ofNat value.length).toNat - (UInt16.ofNat value.length).toNat) = some (padding, ⟨rest⟩) :=
    readBytes_append (by rw [hvalue]; omega)
  rw [readAttributes, if_neg (by rw [hbytes]; decide)]
  simp only [bytes, List.append_assoc, readU16_beBytes, readU16_beBytes_of_lt hlt, Option.bind_eq_bind,
    Option.bind_some, hread, hskip, step]
  by_cases htype : type ≠ 0x0020
  · rw [if_pos htype, if_pos htype, Option.bind_some]
  · rw [if_neg htype, if_neg htype, Option.bind_map]
    rfl

theorem readAttributes_flatMap (attributes : List StunAttribute) {turns : Nat} (hturns : attributes.length < turns)
    (mapped : Option Endpoint) :
    readAttributes transactionId turns ⟨attributes.flatMap bytes⟩ mapped
      = (attributes.foldlM (step transactionId) mapped).join := by
  induction attributes generalizing turns mapped with
  | nil =>
    obtain ⟨turns, rfl⟩ := Nat.exists_eq_add_of_lt hturns
    rw [List.length_nil, Nat.zero_add, readAttributes]
    rfl
  | cons attr attributes ih =>
    obtain ⟨turns, rfl⟩ := Nat.exists_eq_add_of_lt (Nat.zero_lt_of_lt hturns)
    rw [Nat.zero_add, List.flatMap_cons, readAttributes_cons, List.foldlM_cons]
    rw [List.length_cons, Nat.zero_add] at hturns
    cases attr.step transactionId mapped with
    | none => rfl
    | some mapped => exact ih (Nat.lt_of_succ_lt_succ hturns) mapped

theorem exists_attributes_of_readAttributes {turns : Nat} {reader : WireReader} {mapped : Option Endpoint}
    {endpoint : Endpoint} (h : readAttributes transactionId turns reader mapped = some endpoint) :
    ∃ attributes : List StunAttribute, reader.rest = attributes.flatMap bytes := by
  induction turns generalizing reader mapped with
  | zero => exact absurd h (Option.some_ne_none endpoint).symm
  | succ turns ih =>
    rw [readAttributes] at h
    by_cases hfinished : reader.finished = true
    · exact ⟨[], List.isEmpty_iff.mp hfinished⟩
    · rw [if_neg hfinished] at h
      simp only [Option.bind_eq_bind, Option.bind_eq_some_iff] at h
      obtain ⟨⟨type, afterType⟩, htype, ⟨length, afterLength⟩, hlength, ⟨value, afterValue⟩, hvalue,
        ⟨padding, rest⟩, hpadding, hnext⟩ := h
      dsimp only at hlength hvalue hpadding hnext
      obtain ⟨attributes, hattributes⟩ : ∃ attributes : List StunAttribute, rest.rest = attributes.flatMap bytes := by
        by_cases hother : type ≠ 0x0020
        · rw [if_pos hother] at hnext
          exact ih hnext
        · rw [if_neg hother, Option.bind_eq_some_iff] at hnext
          obtain ⟨_, -, hnext⟩ := hnext
          exact ih hnext
      obtain ⟨hvalueLength, hvalueRest⟩ := readBytes_eq_some hvalue
      obtain ⟨hpaddingLength, hpaddingRest⟩ := readBytes_eq_some hpadding
      have hlt := length.toNat_lt
      refine ⟨⟨type, value, padding, by omega, ?_⟩ :: attributes, ?_⟩
      · rw [hvalueLength, hpaddingLength]
        exact Nat.add_sub_of_le (le_paddedLen _)
      · rw [rest_of_readU16 htype, rest_of_readU16 hlength, hvalueRest, hpaddingRest, hattributes, List.flatMap_cons]
        simp only [bytes, hvalueLength, List.append_assoc]

theorem foldlM_step_eq_none {attributes : List StunAttribute} (h : ∃ attr ∈ attributes, attr.type = 0x0020)
    (endpoint : Endpoint) : attributes.foldlM (step transactionId) (some endpoint) = none := by
  induction attributes with
  | nil => exact absurd h (by simp)
  | cons attr attributes ih =>
    rw [List.foldlM_cons]
    by_cases htype : attr.type = 0x0020
    · rw [step, if_neg (not_not.mpr htype), readMappedAddress_some]
      rfl
    · rw [step, if_pos htype]
      obtain ⟨other, hother, hsame⟩ := h
      rcases List.mem_cons.mp hother with rfl | hrest
      · exact absurd hsame htype
      · exact ih ⟨other, hrest, hsame⟩

theorem join_foldlM_step_eq_none {attributes : List StunAttribute} (h : 2 ≤ attributes.countP (·.type = 0x0020)) :
    (attributes.foldlM (step transactionId) none).join = none := by
  induction attributes with
  | nil => exact absurd h (by decide)
  | cons attr attributes ih =>
    rw [List.foldlM_cons]
    by_cases htype : attr.type = 0x0020
    · rw [List.countP_cons_of_pos (by simpa using htype)] at h
      obtain ⟨other, hother, hsame⟩ := List.countP_pos_iff.mp (Nat.lt_of_succ_le (Nat.le_of_succ_le_succ h))
      rw [step, if_neg (not_not.mpr htype)]
      cases readMappedAddress transactionId (UInt16.ofNat attr.value.length) attr.value none with
      | none => rfl
      | some endpoint => exact congrArg Option.join (foldlM_step_eq_none ⟨other, hother, of_decide_eq_true hsame⟩ _)
    · rw [List.countP_cons_of_neg (by simpa using htype)] at h
      rw [step, if_pos htype]
      exact ih h

/-! ## Messages -/

def stunMessage (type length : UInt16) (cookie : UInt32) (transactionId : FixedBytes 12) (body : List UInt8) :
    List UInt8 :=
  beBytes 2 type.toNat ++ (beBytes 2 length.toNat ++ (beBytes 4 cookie.toNat ++ (transactionId.1 ++ body)))

theorem exists_beBytes_append {n : Nat} {data : List UInt8} (h : n ≤ data.length) :
    ∃ k < 256 ^ n, data = beBytes n k ++ data.drop n := by
  obtain ⟨hlt, hbytes⟩ := beBytes_beNat_of_length (List.length_take_of_le h)
  exact ⟨beNat (data.take n), hlt, by rw [hbytes, List.take_append_drop]⟩

theorem exists_stunMessage {data : List UInt8} (h : 20 ≤ data.length) :
    ∃ type length cookie transactionId body, data = stunMessage type length cookie transactionId body := by
  obtain ⟨type, htype, hdata⟩ := exists_beBytes_append (show 2 ≤ data.length by omega)
  have hafterType : (data.drop 2).length = data.length - 2 := List.length_drop
  obtain ⟨length, hlength, hdrop⟩ := exists_beBytes_append (show 2 ≤ (data.drop 2).length by omega)
  have hafterLength : ((data.drop 2).drop 2).length = (data.drop 2).length - 2 := List.length_drop
  obtain ⟨cookie, hcookie, hdrop'⟩ := exists_beBytes_append (show 4 ≤ ((data.drop 2).drop 2).length by omega)
  have hafterCookie : (((data.drop 2).drop 2).drop 4).length = ((data.drop 2).drop 2).length - 4 := List.length_drop
  have hid : ((((data.drop 2).drop 2).drop 4).take 12).length = 12 := List.length_take_of_le (by omega)
  refine ⟨UInt16.ofNat type, UInt16.ofNat length, UInt32.ofNat cookie, ⟨_, hid⟩,
    (((data.drop 2).drop 2).drop 4).drop 12, ?_⟩
  rw [stunMessage, UInt16.toNat_ofNat_of_lt' htype, UInt16.toNat_ofNat_of_lt' hlength,
    UInt32.toNat_ofNat_of_lt' hcookie, List.take_append_drop, ← hdrop', ← hdrop, ← hdata]

variable {type length : UInt16} {cookie : UInt32} {body : List UInt8}

theorem length_stunMessage : (stunMessage type length cookie transactionId body).length = 20 + body.length := by
  simp only [stunMessage, List.length_append, length_beBytes, transactionId.2]
  omega

theorem parse_stunMessage (expected : Option (FixedBytes 12)) :
    parseStunBindingResponse (stunMessage type length cookie transactionId body) expected =
      if (type ≠ 0x0101 ∧ type ≠ 0x0111) ∨ cookie ≠ STUN_MAGIC_COOKIE ∨ length.toNat % 4 ≠ 0 ∨
        20 + body.length ≠ 20 + length.toNat then none
      else if expected.any (· ≠ transactionId) then none
      else readAttributes transactionId (20 + body.length) ⟨body⟩ none := by
  rw [parseStunBindingResponse, length_stunMessage, if_neg (by omega)]
  simp only [stunMessage, readU16_beBytes, readU32_beBytes, readArray_append, Option.bind_eq_bind, Option.bind_some]

theorem parse_stunMessage_of_ne {expected : FixedBytes 12} (h : expected ≠ transactionId) :
    parseStunBindingResponse (stunMessage type length cookie transactionId body) (some expected) = none := by
  rw [parse_stunMessage]
  split_ifs with hheader hid
  · rfl
  · rfl
  · exact absurd (decide_eq_true h) hid

theorem parse_stunMessage_eq_none {expected : Option (FixedBytes 12)}
    (h : length.toNat = body.length → readAttributes transactionId (20 + body.length) ⟨body⟩ none = none) :
    parseStunBindingResponse (stunMessage type length cookie transactionId body) expected = none := by
  rw [parse_stunMessage]
  split_ifs with hheader hid
  · rfl
  · rfl
  · exact h (by omega)

theorem length_le_flatMap_bytes (attributes : List StunAttribute) :
    attributes.length ≤ (attributes.flatMap bytes).length := by
  induction attributes with
  | nil => exact Nat.le_refl 0
  | cons attr attributes ih =>
    have hattr := attr.length_bytes
    rw [List.flatMap_cons, List.length_append, List.length_cons]
    omega

end Messages

/-! ## Success responses -/

/-- A transport address as the protocol knows it. -/
inductive StunAddress where
  | ipv4 (number : UInt32)
  | ipv6 (bytes : FixedBytes 16)

namespace StunAddress

def address : StunAddress → IPAddress
  | ipv4 number => IPAddress.fromIpv4 number
  | ipv6 bytes => IPAddress.fromIpv6 bytes

def family : StunAddress → UInt8
  | ipv4 _ => 0x01
  | ipv6 _ => 0x02

/-- The address, xored with the magic cookie and, for IPv6, the transaction id. -/
def xored (transactionId : FixedBytes 12) : StunAddress → List UInt8
  | ipv4 number => beBytes 4 (number ^^^ STUN_MAGIC_COOKIE).toNat
  | ipv6 bytes => (bytes.xor (stunMask transactionId)).1

theorem length_xored (transactionId : FixedBytes 12) (host : StunAddress) :
    (host.xored transactionId).length % 4 = 0 ∧ (host.xored transactionId).length ≤ 16 := by
  cases host with
  | ipv4 number => rw [xored, length_beBytes]; decide
  | ipv6 bytes => rw [xored, (bytes.xor _).2]; decide

/-- The XOR-MAPPED-ADDRESS attribute. -/
def mappedAttribute (transactionId : FixedBytes 12) (host : StunAddress) (port : UInt16) : StunAttribute where
  type := 0x0020
  value := 0 :: host.family :: (beBytes 2 (port ^^^ 0x2112).toNat ++ host.xored transactionId)
  padding := []
  value_lt := by
    have hlength := host.length_xored transactionId
    simp only [List.length_cons, List.length_append, length_beBytes]
    omega
  padded := by
    have hlength := host.length_xored transactionId
    simp only [List.length_cons, List.length_append, length_beBytes, List.length_nil, paddedLen]
    omega

end StunAddress

theorem FixedBytes.xor_xor {n : Nat} (bytes mask : FixedBytes n) : (bytes.xor mask).xor mask = bytes := by
  obtain ⟨bytes, hbytes⟩ := bytes
  obtain ⟨mask, hmask⟩ := mask
  apply Subtype.ext
  show List.zipWith (· ^^^ ·) (List.zipWith (· ^^^ ·) bytes mask) mask = bytes
  apply List.ext_getElem
  · simp [hbytes, hmask]
  · intro i h h'
    rw [List.getElem_zipWith, List.getElem_zipWith, UInt8.xor_assoc, UInt8.xor_self, UInt8.xor_zero]

def bindingResponse (transactionId : FixedBytes 12) (attributes : List StunAttribute) : List UInt8 :=
  stunMessage 0x0101 (UInt16.ofNat (attributes.flatMap bytes).length) 0x2112A442 transactionId
    (attributes.flatMap bytes)

variable {transactionId : FixedBytes 12}

theorem readMappedAddress_mappedAttribute (host : StunAddress) (port : UInt16) :
    readMappedAddress transactionId (UInt16.ofNat (host.mappedAttribute transactionId port).value.length)
      (host.mappedAttribute transactionId port).value none = some ⟨host.address, port⟩ := by
  have hport : (port ^^^ (0x2112 : UInt16)) ^^^ (STUN_MAGIC_COOKIE >>> 16).toUInt16 = port := by
    rw [show (STUN_MAGIC_COOKIE >>> 16).toUInt16 = 0x2112 from rfl, UInt16.xor_assoc, UInt16.xor_self, UInt16.xor_zero]
  cases host with
  | ipv4 number =>
    have hread : (WireReader.mk (beBytes 4 (number ^^^ STUN_MAGIC_COOKIE).toNat)).readU32
        = some (number ^^^ STUN_MAGIC_COOKIE, ⟨[]⟩) := by
      have happend := readU32_beBytes (number ^^^ STUN_MAGIC_COOKIE) []
      rwa [List.append_nil] at happend
    have hnumber : (number ^^^ STUN_MAGIC_COOKIE) ^^^ STUN_MAGIC_COOKIE = number := by
      rw [UInt32.xor_assoc, UInt32.xor_self, UInt32.xor_zero]
    simp [-UInt16.toNat_xor, -UInt32.toNat_xor, readMappedAddress, StunAddress.mappedAttribute, StunAddress.family,
      StunAddress.xored, StunAddress.address, hread, hport, hnumber, finished]
  | ipv6 bytes =>
    have hread : (WireReader.mk (bytes.xor (stunMask transactionId)).1).readArray 16
        = some (bytes.xor (stunMask transactionId), ⟨[]⟩) := by
      have happend := readArray_append (bytes.xor (stunMask transactionId)) []
      rwa [List.append_nil] at happend
    have hlength := (bytes.xor (stunMask transactionId)).2
    simp [-UInt16.toNat_xor, readMappedAddress, StunAddress.mappedAttribute, StunAddress.family,
      StunAddress.xored, StunAddress.address, hread, hport, hlength, FixedBytes.xor_xor, finished]

theorem foldlM_step_of_other {attributes : List StunAttribute} (h : ∀ attr ∈ attributes, attr.type ≠ 0x0020)
    (mapped : Option Endpoint) : attributes.foldlM (step transactionId) mapped = some mapped := by
  induction attributes with
  | nil => rfl
  | cons attr attributes ih =>
    obtain ⟨hattr, hrest⟩ := List.forall_mem_cons.mp h
    rw [List.foldlM_cons, step, if_pos hattr]
    exact ih hrest

theorem length_flatMap_bytes_mod (attributes : List StunAttribute) : (attributes.flatMap bytes).length % 4 = 0 := by
  induction attributes with
  | nil => rfl
  | cons attr attributes ih =>
    have hpadded := attr.padded
    unfold paddedLen at hpadded
    simp only [List.flatMap_cons, bytes, List.length_append, length_beBytes] at ih ⊢
    omega

theorem parse_bindingResponse {before after : List StunAttribute} {host : StunAddress} {port : UInt16}
    (hbefore : ∀ attr ∈ before, attr.type ≠ 0x0020) (hafter : ∀ attr ∈ after, attr.type ≠ 0x0020)
    (hlength : ((before ++ host.mappedAttribute transactionId port :: after).flatMap bytes).length < 2 ^ 16) :
    parseStunBindingResponse
      (bindingResponse transactionId (before ++ host.mappedAttribute transactionId port :: after))
      (some transactionId) = some ⟨host.address, port⟩ := by
  have hmod := length_flatMap_bytes_mod (before ++ host.mappedAttribute transactionId port :: after)
  have hturns := length_le_flatMap_bytes (before ++ host.mappedAttribute transactionId port :: after)
  have htype : (host.mappedAttribute transactionId port).type = 0x0020 := rfl
  have hmapped : (host.mappedAttribute transactionId port).step transactionId none
      = some (some ⟨host.address, port⟩) := by
    rw [step, if_neg (not_not.mpr htype), readMappedAddress_mappedAttribute]
    rfl
  rw [bindingResponse, parse_stunMessage, if_neg ?_, if_neg (by simp), readAttributes_flatMap _ (by omega),
    List.foldlM_append, foldlM_step_of_other hbefore]
  · show (List.foldlM (step transactionId) none (host.mappedAttribute transactionId port :: after)).join = _
    rw [List.foldlM_cons, hmapped]
    exact congrArg Option.join (foldlM_step_of_other hafter _)
  · rw [UInt16.toNat_ofNat_of_lt' hlength]
    rintro (⟨hsuccess, -⟩ | hcookie | hfour | hfill)
    · exact hsuccess rfl
    · exact hcookie rfl
    · exact hfour hmod
    · exact hfill rfl

/-- A success response with one mapped address between other attributes gives that address. Nothing is accepted
with another transaction id, with two mapped addresses, or with a body that is not a row of attributes of the
declared length; and what is not a message at all is refused. -/
theorem stun_responses_decode :
    (∀ (transactionId : FixedBytes 12) (host : StunAddress) (port : UInt16) (before after : List StunAttribute),
      (∀ attr ∈ before ++ after, attr.type ≠ 0x0020) →
      ((before ++ host.mappedAttribute transactionId port :: after).flatMap bytes).length < 2 ^ 16 →
      parseStunBindingResponse
        (bindingResponse transactionId (before ++ host.mappedAttribute transactionId port :: after))
        (some transactionId) = some ⟨host.address, port⟩) ∧
    (∀ data expected, data.length < 20 → parseStunBindingResponse data expected = none) ∧
    (∀ data : List UInt8, 20 ≤ data.length → ∃ type length cookie transactionId body,
      data = stunMessage type length cookie transactionId body) ∧
    ∀ type length cookie transactionId body,
      (∀ expected, expected ≠ transactionId →
        parseStunBindingResponse (stunMessage type length cookie transactionId body) (some expected) = none) ∧
      (∀ expected (attributes : List StunAttribute), body = attributes.flatMap bytes →
        2 ≤ attributes.countP (·.type = 0x0020) →
        parseStunBindingResponse (stunMessage type length cookie transactionId body) expected = none) ∧
      ∀ expected,
        (¬ ∃ attributes : List StunAttribute, body = attributes.flatMap bytes ∧ length.toNat = body.length) →
        parseStunBindingResponse (stunMessage type length cookie transactionId body) expected = none := by
  refine ⟨fun transactionId host port before after hother hlength => ?_, fun data expected hshort => ?_,
    fun data hdata => exists_stunMessage hdata,
    fun type length cookie transactionId body => ⟨fun expected hne => parse_stunMessage_of_ne hne,
      fun expected attributes hbody htwo => ?_, fun expected hrow => ?_⟩⟩
  · obtain ⟨hbefore, hafter⟩ := List.forall_mem_append.mp hother
    exact parse_bindingResponse hbefore hafter hlength
  · exact if_pos hshort
  · refine parse_stunMessage_eq_none fun _ => ?_
    have hturns := length_le_flatMap_bytes attributes
    rw [hbody, readAttributes_flatMap attributes (by omega)]
    exact join_foldlM_step_eq_none htwo
  · refine parse_stunMessage_eq_none fun hfill => ?_
    cases hread : readAttributes transactionId (20 + body.length) ⟨body⟩ none with
    | none => rfl
    | some endpoint =>
      obtain ⟨attributes, hattributes⟩ := exists_attributes_of_readAttributes hread
      exact absurd ⟨attributes, hattributes, hfill⟩ hrow

end Aegis
