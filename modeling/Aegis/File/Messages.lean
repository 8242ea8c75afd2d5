import Aegis.Packet.Header
import Mathlib.Data.Prod.Lex

/-!
# File transfer messages

`file/transfer.hpp`: the messages of a file transfer, the limits on them and the checks that both sides
make. Sizes, counts and indices are below these limits wherever they are used, so they are natural numbers;
file names and paths are byte strings.
-/

namespace Aegis

def FILE_CHUNK_FIXED_SIZE : Nat := 16
def FILE_ACK_MAX_RANGES : Nat := 32
def FILE_TRANSFER_MAX_NAME_BYTES : Nat := 255
def FILE_TRANSFER_MIN_CHUNK_SIZE : Nat := 512
def FILE_TRANSFER_MAX_CHUNK_SIZE : Nat := SESSION_MAX_LOGICAL_PAYLOAD_SIZE - FILE_CHUNK_FIXED_SIZE
def FILE_TRANSFER_MAX_FILE_SIZE : Nat := 1024 * 1024 * 1024
def FILE_TRANSFER_MAX_CHUNKS : Nat :=
  (FILE_TRANSFER_MAX_FILE_SIZE + FILE_TRANSFER_MIN_CHUNK_SIZE - 1) / FILE_TRANSFER_MIN_CHUNK_SIZE
def FILE_TRANSFER_MAX_ACTIVE_PER_PEER : Nat := 4
def FILE_TRANSFER_MAX_ACTIVE_GLOBAL : Nat := 32
def FILE_TRANSFER_MAX_RESERVED_PER_PEER : Nat := 2 * FILE_TRANSFER_MAX_FILE_SIZE
def FILE_TRANSFER_MAX_RESERVED_GLOBAL : Nat := 8 * FILE_TRANSFER_MAX_FILE_SIZE
/-- Five minutes, in milliseconds. -/
def FILE_TRANSFER_IDLE_TIMEOUT : Time := 300000

structure FileTransferHeader where
  transferId : UInt64
  fileSize : Nat
  chunkSize : Nat
  totalChunks : Nat
  contentHash : CryptoHash
  filename : List UInt8
deriving DecidableEq

structure FileTransferChunk where
  transferId : UInt64
  chunkIndex : Nat
  data : List UInt8
deriving DecidableEq

structure FileAckRange where
  first : Nat
  count : Nat
deriving DecidableEq

/-- The range names chunk `i`. -/
def FileAckRange.Holds (range : FileAckRange) (i : Nat) : Prop :=
  range.first ≤ i ∧ i < range.first + range.count

structure FileTransferAck where
  transferId : UInt64
  headerReceived : Bool
  ranges : List FileAckRange
deriving DecidableEq

inductive FileCancelReason where
  | senderCancelled
  | retryLimit
  | timedOut
  | capacity
deriving DecidableEq

structure FileTransferCancel where
  transferId : UInt64
  reason : FileCancelReason
deriving DecidableEq

/-- The peer at the other end and the transfer's id, ordered by the peer first. -/
structure FileTransferKey where
  sender : NodeId
  transferId : UInt64
deriving DecidableEq

instance : LinearOrder FileTransferKey :=
  LinearOrder.lift' (fun key => toLex (key.sender, key.transferId)) fun a b h => by
    obtain ⟨hsender, hid⟩ := Prod.mk.inj (toLex.injective h)
    cases a
    cases b
    simp_all

/-! ### File names -/

def asciiUpper (value : UInt8) : UInt8 := if 97 ≤ value && value ≤ 122 then value - 32 else value

/-- The stems Windows reserves: `CON`, `PRN`, `AUX`, `NUL`, `CONIN$` and `CONOUT$`. -/
def RESERVED_STEMS : List (List UInt8) :=
  [[67, 79, 78], [80, 82, 78], [65, 85, 88], [78, 85, 76], [67, 79, 78, 73, 78, 36],
    [67, 79, 78, 79, 85, 84, 36]]

/-- The stems it reserves with a digit from 1 to 9 after them: `COM` and `LPT`. -/
def RESERVED_PORTS : List (List UInt8) := [[67, 79, 77], [76, 80, 84]]

def isReservedWindowsName (filename : List UInt8) : Bool :=
  let stem := (filename.takeWhile (· != 46)).map asciiUpper
  RESERVED_STEMS.contains stem ||
    (stem.length = 4 && 49 ≤ stem.getD 3 0 && stem.getD 3 0 ≤ 57 && RESERVED_PORTS.contains (stem.take 3))

/-- The characters no file name has: control characters, and quote, star, slash, colon, angle brackets,
question mark, backslash and bar. -/
def isUnsafeByte (value : UInt8) : Bool :=
  value < 32 || value = 127 || [34, 42, 47, 58, 60, 62, 63, 92, 124].contains value

def isSafeFileName (filename : List UInt8) : Bool :=
  !(filename.isEmpty || FILE_TRANSFER_MAX_NAME_BYTES < filename.length || filename = [46] ||
      filename = [46, 46] || filename.getLast? = some 46 || filename.getLast? = some 32 ||
      isReservedWindowsName filename) &&
    !filename.any isUnsafeByte

/-! ### Sizes -/

def fileChunkSizeForOverlayMtu (overlayMtu : Nat) : Option Nat :=
  let payloadBudget := min overlayMtu SESSION_MAX_LOGICAL_PAYLOAD_SIZE
  if payloadBudget < FILE_CHUNK_FIXED_SIZE + FILE_TRANSFER_MIN_CHUNK_SIZE then none
  else some (payloadBudget - FILE_CHUNK_FIXED_SIZE)

def fileTransferChunkCount (fileSize chunkSize : Nat) : Nat :=
  if FILE_TRANSFER_MAX_FILE_SIZE < fileSize ∨ chunkSize < FILE_TRANSFER_MIN_CHUNK_SIZE ∨
      FILE_TRANSFER_MAX_CHUNK_SIZE < chunkSize then 0
  else if fileSize = 0 then 1
  else 1 + (fileSize - 1) / chunkSize

def isValidFileHeader (header : FileTransferHeader) : Bool :=
  let expectedChunks := fileTransferChunkCount header.fileSize header.chunkSize
  header.transferId ≠ 0 && expectedChunks ≠ 0 && header.totalChunks = expectedChunks &&
    isSafeFileName header.filename

def isValidFileChunk (chunk : FileTransferChunk) : Bool :=
  chunk.transferId ≠ 0 && chunk.chunkIndex < FILE_TRANSFER_MAX_CHUNKS &&
    chunk.data.length ≤ FILE_TRANSFER_MAX_CHUNK_SIZE

/-- The bytes chunk `index` of the file has: a whole chunk, or what is left for the last one. -/
def expectedChunkSize (header : FileTransferHeader) (index : Nat) : Nat :=
  if index + 1 = header.totalChunks then header.fileSize - index * header.chunkSize else header.chunkSize

def isValidFileChunkForHeader (header : FileTransferHeader) (chunk : FileTransferChunk) : Bool :=
  isValidFileHeader header && isValidFileChunk chunk && chunk.transferId = header.transferId &&
    chunk.chunkIndex < header.totalChunks &&
    chunk.data.length = expectedChunkSize header chunk.chunkIndex

def fileTransferAdmissionAllowed (peerCount peerBytes globalCount globalBytes requestedBytes : Nat) : Bool :=
  !(FILE_TRANSFER_MAX_FILE_SIZE < requestedBytes || FILE_TRANSFER_MAX_ACTIVE_PER_PEER ≤ peerCount ||
      FILE_TRANSFER_MAX_ACTIVE_GLOBAL ≤ globalCount) &&
    !(FILE_TRANSFER_MAX_RESERVED_PER_PEER - requestedBytes < peerBytes ||
      FILE_TRANSFER_MAX_RESERVED_GLOBAL - requestedBytes < globalBytes)

def fileTransferIdleExpired (lastActivity now : Time) : Bool :=
  lastActivity ≤ now && FILE_TRANSFER_IDLE_TIMEOUT ≤ now - lastActivity

def hexByte (byte : UInt8) : List UInt8 :=
  let digit (nibble : UInt8) : UInt8 := if nibble < 10 then 48 + nibble else 87 + nibble
  [digit (byte >>> 4), digit (byte &&& 0x0F)]

/-- `.aegis-`, the sender and the transfer id in hexadecimal, `.part`. -/
def fileTransferPartName (sender : NodeId) (transferId : UInt64) : List UInt8 :=
  [46, 97, 101, 103, 105, 115, 45] ++ sender.1.flatMap hexByte ++ [45] ++
    (beBytes 8 transferId.toNat).flatMap hexByte ++ [46, 112, 97, 114, 116]

theorem fileTransferAdmissionAllowed_iff (peerCount peerBytes globalCount globalBytes requestedBytes : Nat) :
    fileTransferAdmissionAllowed peerCount peerBytes globalCount globalBytes requestedBytes = true ↔
      requestedBytes ≤ FILE_TRANSFER_MAX_FILE_SIZE ∧ peerCount < FILE_TRANSFER_MAX_ACTIVE_PER_PEER ∧
      globalCount < FILE_TRANSFER_MAX_ACTIVE_GLOBAL ∧
      peerBytes + requestedBytes ≤ FILE_TRANSFER_MAX_RESERVED_PER_PEER ∧
      globalBytes + requestedBytes ≤ FILE_TRANSFER_MAX_RESERVED_GLOBAL := by
  simp only [fileTransferAdmissionAllowed, Bool.and_eq_true, Bool.not_eq_true', Bool.or_eq_false_iff,
    decide_eq_false_iff_not]
  simp only [FILE_TRANSFER_MAX_FILE_SIZE, FILE_TRANSFER_MAX_RESERVED_PER_PEER,
    FILE_TRANSFER_MAX_RESERVED_GLOBAL]
  omega

theorem totalChunks_bounds {header : FileTransferHeader} (h : isValidFileHeader header = true) :
    0 < header.totalChunks ∧ header.totalChunks ≤ FILE_TRANSFER_MAX_CHUNKS := by
  simp only [isValidFileHeader, Bool.and_eq_true, decide_eq_true_eq] at h
  obtain ⟨⟨⟨-, hpos⟩, htotal⟩, -⟩ := h
  rw [htotal]
  refine ⟨Nat.pos_of_ne_zero hpos, ?_⟩
  unfold fileTransferChunkCount at hpos ⊢
  split_ifs with hlimits hzero
  · simp
  · decide
  · simp only [FILE_TRANSFER_MAX_FILE_SIZE, FILE_TRANSFER_MIN_CHUNK_SIZE, not_or, not_lt] at hlimits
    have hdiv : (header.fileSize - 1) / header.chunkSize ≤ (header.fileSize - 1) / 512 :=
      Nat.div_le_div_left hlimits.2.1 (by omega)
    simp only [FILE_TRANSFER_MAX_CHUNKS, FILE_TRANSFER_MAX_FILE_SIZE, FILE_TRANSFER_MIN_CHUNK_SIZE]
    omega

end Aegis
