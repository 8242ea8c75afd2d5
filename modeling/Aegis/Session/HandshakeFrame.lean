import Aegis.Session.Primitives

/-!
# Handshake v2 frames

`session/handshake_v2.cpp`: the INIT and RESP envelopes around the two Noise IK messages, and the prologue
that binds the envelope's fields into the Noise transcript.
-/

namespace Aegis

def HANDSHAKE_V2_VERSION : UInt8 := 0x02
def HANDSHAKE_V2_INIT_TYPE : UInt8 := 0x00
def HANDSHAKE_V2_RESPONSE_TYPE : UInt8 := 0x01
def HANDSHAKE_V2_FLAGS : UInt8 := 0x00
def HANDSHAKE_V2_INITIATOR_ROLE : UInt8 := 0x01
def HANDSHAKE_V2_RESPONDER_ROLE : UInt8 := 0x02

def HANDSHAKE_V2_PROLOGUE_DOMAIN : String := "aegis-handshake-v2"
def HANDSHAKE_V2_NOISE_PROTOCOL : String := "Noise_IK_25519_ChaChaPoly_BLAKE2s"

abbrev NETWORK_ID_SIZE : Nat := 32
def HANDSHAKE_V2_HEADER_SIZE : Nat := 9
def HANDSHAKE_V2_INIT_NOISE_SIZE : Nat := 96
def HANDSHAKE_V2_RESPONSE_NOISE_SIZE : Nat := 48
def HANDSHAKE_V2_INIT_PAYLOAD_SIZE : Nat := NETWORK_ID_SIZE + HANDSHAKE_V2_INIT_NOISE_SIZE
def HANDSHAKE_V2_RESPONSE_PAYLOAD_SIZE : Nat := HANDSHAKE_V2_RESPONSE_NOISE_SIZE
def HANDSHAKE_V2_INIT_FRAME_SIZE : Nat := HANDSHAKE_V2_HEADER_SIZE + HANDSHAKE_V2_INIT_PAYLOAD_SIZE
def HANDSHAKE_V2_RESPONSE_FRAME_SIZE : Nat :=
  HANDSHAKE_V2_HEADER_SIZE + HANDSHAKE_V2_RESPONSE_PAYLOAD_SIZE

structure HandshakeV2InitFrame where
  sessionId : UInt32
  networkId : NetworkId
  noiseMessage : FixedBytes HANDSHAKE_V2_INIT_NOISE_SIZE
deriving DecidableEq

structure HandshakeV2ResponseFrame where
  sessionId : UInt32
  noiseMessage : FixedBytes HANDSHAKE_V2_RESPONSE_NOISE_SIZE
deriving DecidableEq

/-- The nine header bytes, as `write_prologue_header` writes them: any session id. -/
def writePrologueHeader (type : UInt8) (sessionId : UInt32) (payloadLength : Nat) : List UInt8 :=
  [HANDSHAKE_V2_VERSION, type, HANDSHAKE_V2_FLAGS] ++ beBytes 4 sessionId.toNat ++ beBytes 2 payloadLength

/-- A frame header; session id 0 cannot be written. -/
def writeHeader (type : UInt8) (sessionId : UInt32) (payloadLength : Nat) : Option (List UInt8) :=
  if sessionId = 0 then none else some (writePrologueHeader type sessionId payloadLength)

def readHeader (reader : WireReader) (expectedType : UInt8) (expectedPayloadLength : Nat) :
    Option (UInt32 × WireReader) := do
  let (version, reader) ← reader.readU8
  let (type, reader) ← reader.readU8
  let (flags, reader) ← reader.readU8
  let (sessionId, reader) ← reader.readU32
  let (payloadLength, reader) ← reader.readU16
  if version = HANDSHAKE_V2_VERSION ∧ type = expectedType ∧ flags = HANDSHAKE_V2_FLAGS ∧ sessionId ≠ 0 ∧
      payloadLength.toNat = expectedPayloadLength then
    some (sessionId, reader)
  else none

/-- The Noise prologue: domain, protocol name, version, network, session, roles and both headers. -/
def makeHandshakeV2Prologue (networkId : NetworkId) (sessionId : UInt32) : Option (List UInt8) :=
  if sessionId = 0 then none
  else
    let domain := asciiBytes HANDSHAKE_V2_PROLOGUE_DOMAIN
    let protocol := asciiBytes HANDSHAKE_V2_NOISE_PROTOCOL
    some (UInt8.ofNat domain.length :: domain ++ UInt8.ofNat protocol.length :: protocol
      ++ HANDSHAKE_V2_VERSION :: networkId.1 ++ beBytes 4 sessionId.toNat
      ++ [HANDSHAKE_V2_INITIATOR_ROLE, HANDSHAKE_V2_RESPONDER_ROLE]
      ++ writePrologueHeader HANDSHAKE_V2_INIT_TYPE sessionId HANDSHAKE_V2_INIT_PAYLOAD_SIZE
      ++ writePrologueHeader HANDSHAKE_V2_RESPONSE_TYPE sessionId HANDSHAKE_V2_RESPONSE_PAYLOAD_SIZE)

def serializeHandshakeV2Init (frame : HandshakeV2InitFrame) : Option (List UInt8) := do
  let header ← writeHeader HANDSHAKE_V2_INIT_TYPE frame.sessionId HANDSHAKE_V2_INIT_PAYLOAD_SIZE
  some (header ++ frame.networkId.1 ++ frame.noiseMessage.1)

def parseHandshakeV2Init (bytes : List UInt8) : Option HandshakeV2InitFrame := do
  if bytes.length ≠ HANDSHAKE_V2_INIT_FRAME_SIZE then none
  else
    let (sessionId, reader) ←
      readHeader ⟨bytes⟩ HANDSHAKE_V2_INIT_TYPE HANDSHAKE_V2_INIT_PAYLOAD_SIZE
    let (networkId, reader) ← reader.readArray NETWORK_ID_SIZE
    let (noiseMessage, reader) ← reader.readArray HANDSHAKE_V2_INIT_NOISE_SIZE
    if reader.finished then some ⟨sessionId, networkId, noiseMessage⟩ else none

def serializeHandshakeV2Response (frame : HandshakeV2ResponseFrame) : Option (List UInt8) := do
  let header ← writeHeader HANDSHAKE_V2_RESPONSE_TYPE frame.sessionId HANDSHAKE_V2_RESPONSE_PAYLOAD_SIZE
  some (header ++ frame.noiseMessage.1)

def parseHandshakeV2Response (bytes : List UInt8) : Option HandshakeV2ResponseFrame := do
  if bytes.length ≠ HANDSHAKE_V2_RESPONSE_FRAME_SIZE then none
  else
    let (sessionId, reader) ←
      readHeader ⟨bytes⟩ HANDSHAKE_V2_RESPONSE_TYPE HANDSHAKE_V2_RESPONSE_PAYLOAD_SIZE
    let (noiseMessage, reader) ← reader.readArray HANDSHAKE_V2_RESPONSE_NOISE_SIZE
    if reader.finished then some ⟨sessionId, noiseMessage⟩ else none

/-! ### Round trips -/

@[simp] theorem length_writePrologueHeader (type : UInt8) (sessionId : UInt32) (payloadLength : Nat) :
    (writePrologueHeader type sessionId payloadLength).length = HANDSHAKE_V2_HEADER_SIZE := by
  simp [writePrologueHeader, HANDSHAKE_V2_HEADER_SIZE]

theorem writeHeader_of_ne {sessionId : UInt32} (h : sessionId ≠ 0) (type : UInt8) (payloadLength : Nat) :
    writeHeader type sessionId payloadLength = some (writePrologueHeader type sessionId payloadLength) :=
  if_neg h

theorem readHeader_write {type : UInt8} {sessionId : UInt32} {payloadLength : Nat}
    (hid : sessionId ≠ 0) (hlen : payloadLength < 65536) (rest : List UInt8) :
    readHeader ⟨writePrologueHeader type sessionId payloadLength ++ rest⟩ type payloadLength
      = some (sessionId, ⟨rest⟩) := by
  have hread := WireReader.readU16_beBytes (UInt16.ofNat payloadLength) rest
  have hnat : (UInt16.ofNat payloadLength).toNat = payloadLength := by
    simp [Nat.mod_eq_of_lt hlen]
  rw [hnat] at hread
  simp [readHeader, writePrologueHeader, hread, hid, Nat.mod_eq_of_lt hlen]

theorem parseHandshakeV2Init_serialize {frame : HandshakeV2InitFrame} {bytes : List UInt8}
    (h : serializeHandshakeV2Init frame = some bytes) : parseHandshakeV2Init bytes = some frame := by
  obtain ⟨sessionId, networkId, noiseMessage⟩ := frame
  by_cases hid : sessionId = 0
  · simp [serializeHandshakeV2Init, writeHeader, hid] at h
  have hbytes : bytes = writePrologueHeader HANDSHAKE_V2_INIT_TYPE sessionId HANDSHAKE_V2_INIT_PAYLOAD_SIZE
      ++ (networkId.1 ++ noiseMessage.1) := by
    simpa [serializeHandshakeV2Init, writeHeader_of_ne hid] using h.symm
  subst hbytes
  have hlast := WireReader.readArray_append noiseMessage []
  rw [List.append_nil] at hlast
  have hsize : (writePrologueHeader HANDSHAKE_V2_INIT_TYPE sessionId HANDSHAKE_V2_INIT_PAYLOAD_SIZE
      ++ (networkId.1 ++ noiseMessage.1)).length = HANDSHAKE_V2_INIT_FRAME_SIZE := by
    rw [List.length_append, List.length_append, length_writePrologueHeader, networkId.2, noiseMessage.2]
    rfl
  simp only [parseHandshakeV2Init, hsize, ne_eq, not_true_eq_false, if_false]
  rw [readHeader_write hid (by decide)]
  simp only [Option.bind_eq_bind, Option.bind_some]
  rw [WireReader.readArray_append networkId]
  simp [hlast, WireReader.finished]

theorem parseHandshakeV2Response_serialize {frame : HandshakeV2ResponseFrame} {bytes : List UInt8}
    (h : serializeHandshakeV2Response frame = some bytes) : parseHandshakeV2Response bytes = some frame := by
  obtain ⟨sessionId, noiseMessage⟩ := frame
  by_cases hid : sessionId = 0
  · simp [serializeHandshakeV2Response, writeHeader, hid] at h
  have hbytes : bytes = writePrologueHeader HANDSHAKE_V2_RESPONSE_TYPE sessionId
      HANDSHAKE_V2_RESPONSE_PAYLOAD_SIZE ++ noiseMessage.1 := by
    simpa [serializeHandshakeV2Response, writeHeader_of_ne hid] using h.symm
  subst hbytes
  have hlast := WireReader.readArray_append noiseMessage []
  rw [List.append_nil] at hlast
  have hsize : (writePrologueHeader HANDSHAKE_V2_RESPONSE_TYPE sessionId HANDSHAKE_V2_RESPONSE_PAYLOAD_SIZE
      ++ noiseMessage.1).length = HANDSHAKE_V2_RESPONSE_FRAME_SIZE := by
    rw [List.length_append, length_writePrologueHeader, noiseMessage.2]
    rfl
  simp only [parseHandshakeV2Response, hsize, ne_eq, not_true_eq_false, if_false]
  rw [readHeader_write hid (by decide)]
  simp [hlast, WireReader.finished]

end Aegis
