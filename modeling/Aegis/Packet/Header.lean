import Aegis.Wire.Bytes

/-!
# The packet header and the session padding

`packet/header.hpp`: the 16-byte header every datagram starts with, its codec, and the sizes of a padded
session payload.
-/

namespace Aegis

structure PacketHeader where
  version : UInt8
  packetType : UInt8
  flags : UInt8
  reserved : UInt8
  sessionId : UInt32
  sequenceNumber : UInt32
  payloadLength : UInt32
deriving DecidableEq

def PACKET_VERSION : UInt8 := 0x02

def FLAG_RELAY : UInt8 := 0x01
def FLAG_FRAGMENTED : UInt8 := 0x02
def PACKET_KNOWN_FLAGS : UInt8 := FLAG_RELAY ||| FLAG_FRAGMENTED

def PACKET_HEADER_SIZE : Nat := 16
def SESSION_MAX_PAYLOAD_SIZE : Nat := 4096
def SESSION_PADDING_BUCKET_SIZE : Nat := 64
def SESSION_PADDING_BUCKET_MIN : Nat := 32
def SESSION_LENGTH_PREFIX_SIZE : Nat := 4
def SESSION_MAX_LOGICAL_PAYLOAD_SIZE : Nat := SESSION_MAX_PAYLOAD_SIZE - SESSION_LENGTH_PREFIX_SIZE

def isSupportedSessionPaddingBucket (bucketSize : Nat) : Bool :=
  bucketSize == 32 || bucketSize == 64 || bucketSize == 128 || bucketSize == 256

/-- The size of a padded payload: the prefixed payload rounded up to the bucket. -/
def sessionPaddedPlaintextSize (logicalPayloadSize bucketSize : Nat) : Nat :=
  if isSupportedSessionPaddingBucket bucketSize then
    (logicalPayloadSize + SESSION_LENGTH_PREFIX_SIZE + bucketSize - 1) / bucketSize * bucketSize
  else 0

/-- The header's 16 bytes, integers in network byte order. -/
def serializePacketHeader (header : PacketHeader) : List UInt8 :=
  [header.version, header.packetType, header.flags, header.reserved]
    ++ beBytes 4 header.sessionId.toNat
    ++ beBytes 4 header.sequenceNumber.toNat
    ++ beBytes 4 header.payloadLength.toNat

def parsePacketHeader (bytes : List UInt8) : Option PacketHeader := do
  let (version, reader) ← (WireReader.mk bytes).readU8
  let (packetType, reader) ← reader.readU8
  let (flags, reader) ← reader.readU8
  let (reserved, reader) ← reader.readU8
  let (sessionId, reader) ← reader.readU32
  let (sequenceNumber, reader) ← reader.readU32
  let (payloadLength, reader) ← reader.readU32
  if reader.finished then
    some ⟨version, packetType, flags, reserved, sessionId, sequenceNumber, payloadLength⟩
  else none

@[simp] theorem length_serializePacketHeader (header : PacketHeader) :
    (serializePacketHeader header).length = PACKET_HEADER_SIZE := by
  simp [serializePacketHeader, PACKET_HEADER_SIZE]

theorem parsePacketHeader_serialize (header : PacketHeader) :
    parsePacketHeader (serializePacketHeader header) = some header := by
  have htail := WireReader.readU32_beBytes header.payloadLength []
  rw [List.append_nil] at htail
  simp [parsePacketHeader, serializePacketHeader, htail, WireReader.finished]

/-! ### Padding sizes -/

theorem supportedBucket_cases {bucketSize : Nat} (h : isSupportedSessionPaddingBucket bucketSize = true) :
    bucketSize = 32 ∨ bucketSize = 64 ∨ bucketSize = 128 ∨ bucketSize = 256 := by
  simpa [isSupportedSessionPaddingBucket, or_assoc] using h

/-- A padded payload holds its prefix and payload, fills at least the smallest bucket, and stays within
the session buffer. -/
theorem sessionPaddedPlaintextSize_bounds {size bucketSize : Nat}
    (hbucket : isSupportedSessionPaddingBucket bucketSize = true) (hsize : size ≤ SESSION_MAX_LOGICAL_PAYLOAD_SIZE) :
    size + SESSION_LENGTH_PREFIX_SIZE ≤ sessionPaddedPlaintextSize size bucketSize ∧
      SESSION_PADDING_BUCKET_MIN ≤ sessionPaddedPlaintextSize size bucketSize ∧
      sessionPaddedPlaintextSize size bucketSize ≤ SESSION_MAX_PAYLOAD_SIZE := by
  simp only [sessionPaddedPlaintextSize, hbucket, if_true, SESSION_MAX_LOGICAL_PAYLOAD_SIZE,
    SESSION_MAX_PAYLOAD_SIZE, SESSION_LENGTH_PREFIX_SIZE, SESSION_PADDING_BUCKET_MIN] at hsize ⊢
  rcases supportedBucket_cases hbucket with rfl | rfl | rfl | rfl <;> omega

end Aegis
