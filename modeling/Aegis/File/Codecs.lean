import Aegis.File.AckCodec
import Aegis.Lib.Codec

/-!
# File transfer messages on the wire

The serializers and deserializers of `file/transfer.cpp` for headers, chunks and cancellations; those of
acknowledgements are in `File/AckCodec.lean`. Both ends repeat the checks of a message, and every format is
canonical: no length, flag or reserved byte is left unread, so a message has one form on the wire.
-/

namespace Aegis

def serializeFileHeader (header : FileTransferHeader) : Option (List UInt8) :=
  if !isValidFileHeader header then none
  else
    some (beBytes 8 header.transferId.toNat ++ (beBytes 8 header.fileSize ++ (beBytes 4 header.chunkSize ++
      (beBytes 4 header.totalChunks ++ (header.contentHash.1 ++
        (beBytes 2 header.filename.length ++ header.filename))))))

def deserializeFileHeader (payload : List UInt8) : Option FileTransferHeader := do
  let (transferId, reader) ← (WireReader.mk payload).readU64
  let (fileSize, reader) ← reader.readU64
  let (chunkSize, reader) ← reader.readU32
  let (totalChunks, reader) ← reader.readU32
  let (contentHash, reader) ← reader.readArray 32
  let (filenameLength, reader) ← reader.readU16
  let (filename, reader) ← reader.readBytes filenameLength.toNat
  if !reader.finished then none
  else
    let header : FileTransferHeader :=
      ⟨transferId, fileSize.toNat, chunkSize.toNat, totalChunks.toNat, contentHash, filename⟩
    if !isValidFileHeader header then none else some header

def serializeFileChunk (chunk : FileTransferChunk) : Option (List UInt8) :=
  if !isValidFileChunk chunk then none
  else
    some (beBytes 8 chunk.transferId.toNat ++ (beBytes 4 chunk.chunkIndex ++
      (beBytes 4 chunk.data.length ++ chunk.data)))

def deserializeFileChunk (payload : List UInt8) : Option FileTransferChunk := do
  let (transferId, reader) ← (WireReader.mk payload).readU64
  let (chunkIndex, reader) ← reader.readU32
  let (dataLength, reader) ← reader.readU32
  let (data, reader) ← reader.readBytes dataLength.toNat
  if !reader.finished then none
  else
    let chunk : FileTransferChunk := ⟨transferId, chunkIndex.toNat, data⟩
    if !isValidFileChunk chunk then none else some chunk

namespace FileCancelReason

def toByte : FileCancelReason → UInt8
  | .senderCancelled => 1
  | .retryLimit => 2
  | .timedOut => 3
  | .capacity => 4

/-- The reason a byte stands for, if it is a known one. -/
def ofByte? : UInt8 → Option FileCancelReason
  | 1 => some .senderCancelled
  | 2 => some .retryLimit
  | 3 => some .timedOut
  | 4 => some .capacity
  | _ => none

theorem ofByte?_toByte (reason : FileCancelReason) : ofByte? reason.toByte = some reason := by
  cases reason <;> rfl

theorem toByte_of_ofByte? {byte : UInt8} {reason : FileCancelReason} (h : ofByte? byte = some reason) :
    reason.toByte = byte := by
  unfold ofByte? at h
  split at h
  case h_5 => cases h
  all_goals
    rw [← Option.some.inj h]
    rfl

end FileCancelReason

def serializeFileCancel (cancel : FileTransferCancel) : Option (List UInt8) :=
  let reason := cancel.reason.toByte
  if cancel.transferId = 0 ∨ reason < 1 ∨ 4 < reason then none
  else some (beBytes 8 cancel.transferId.toNat ++ reason :: 0 :: beBytes 2 0)

def deserializeFileCancel (payload : List UInt8) : Option FileTransferCancel := do
  let (transferId, reader) ← (WireReader.mk payload).readU64
  let (reason, reader) ← reader.readU8
  let (reservedByte, reader) ← reader.readU8
  let (reservedWord, reader) ← reader.readU16
  if !reader.finished ∨ transferId = 0 ∨ reservedByte ≠ 0 ∨ reservedWord ≠ 0 then none
  else (FileCancelReason.ofByte? reason).map fun reason => ⟨transferId, reason⟩

/-! ### Headers -/

theorem fields_lt_of_isValidFileHeader {header : FileTransferHeader} (h : isValidFileHeader header = true) :
    header.fileSize < 18446744073709551616 ∧ header.chunkSize < 4294967296 ∧ header.totalChunks < 4294967296 ∧
      header.filename.length < 65536 := by
  have htotal := (totalChunks_bounds h).2
  simp only [isValidFileHeader, Bool.and_eq_true, decide_eq_true_eq] at h
  obtain ⟨⟨⟨-, hcount⟩, -⟩, hname⟩ := h
  have hlimits : ¬(FILE_TRANSFER_MAX_FILE_SIZE < header.fileSize ∨ header.chunkSize < FILE_TRANSFER_MIN_CHUNK_SIZE ∨
      FILE_TRANSFER_MAX_CHUNK_SIZE < header.chunkSize) := by
    intro hlimits
    exact hcount (if_pos hlimits)
  have hlength : header.filename.length ≤ FILE_TRANSFER_MAX_NAME_BYTES := by
    simp only [isSafeFileName, Bool.and_eq_true, Bool.not_eq_true', Bool.or_eq_false_iff,
      decide_eq_false_iff_not] at hname
    exact not_lt.mp hname.1.1.1.1.1.1.2
  have hfile : FILE_TRANSFER_MAX_FILE_SIZE < 18446744073709551616 := by decide
  have hchunk : FILE_TRANSFER_MAX_CHUNK_SIZE < 4294967296 := by decide
  have hchunks : FILE_TRANSFER_MAX_CHUNKS < 4294967296 := by decide
  have hbytes : FILE_TRANSFER_MAX_NAME_BYTES < 65536 := by decide
  omega

variable {payload : List UInt8}

theorem deserializeFileHeader_serialize {header : FileTransferHeader}
    (h : serializeFileHeader header = some payload) : deserializeFileHeader payload = some header := by
  unfold serializeFileHeader at h
  split_ifs at h with hvalid
  obtain rfl := Option.some.inj h
  rw [Bool.not_eq_true', Bool.not_eq_false] at hvalid
  obtain ⟨hfile, hchunk, htotal, hname⟩ := fields_lt_of_isValidFileHeader hvalid
  have hread := @WireReader.readBytes_append header.filename.length header.filename [] rfl
  rw [List.append_nil] at hread
  simp only [deserializeFileHeader, WireReader.readU64_beBytes, WireReader.readU64_beBytes_of_lt hfile,
    WireReader.readU32_beBytes_of_lt hchunk, WireReader.readU32_beBytes_of_lt htotal, WireReader.readArray_append,
    WireReader.readU16_beBytes_of_lt hname, Option.bind_eq_bind, Option.bind_some, UInt64.toNat_ofNat_of_lt' hfile,
    UInt32.toNat_ofNat_of_lt' hchunk, UInt32.toNat_ofNat_of_lt' htotal, UInt16.toNat_ofNat_of_lt' hname, hread,
    hvalid]
  rfl

theorem serializeFileHeader_deserialize {header : FileTransferHeader}
    (h : deserializeFileHeader payload = some header) : serializeFileHeader header = some payload := by
  simp only [deserializeFileHeader, Option.bind_eq_bind, Option.bind_eq_some_iff] at h
  obtain ⟨⟨transferId, reader₁⟩, hid, ⟨fileSize, reader₂⟩, hsize, ⟨chunkSize, reader₃⟩, hchunk,
    ⟨totalChunks, reader₄⟩, htotal, ⟨contentHash, reader₅⟩, hhash, ⟨filenameLength, reader₆⟩, hlength,
    ⟨filename, reader₇⟩, hname, h⟩ := h
  split_ifs at h with hfinished hvalid
  obtain rfl := Option.some.inj h
  obtain ⟨hnameLength, hnameBytes⟩ := WireReader.readBytes_eq_some hname
  have hend : reader₇.rest = [] := by simpa [WireReader.finished] using hfinished
  have hpayload : payload = beBytes 8 transferId.toNat ++ reader₁.rest := WireReader.rest_of_readU64 hid
  rw [hpayload, WireReader.rest_of_readU64 hsize, WireReader.rest_of_readU32 hchunk,
    WireReader.rest_of_readU32 htotal, WireReader.readArray_eq_some hhash, WireReader.rest_of_readU16 hlength,
    hnameBytes, hend, List.append_nil, ← hnameLength]
  exact if_neg hvalid

/-! ### Chunks -/

theorem fields_lt_of_isValidFileChunk {chunk : FileTransferChunk} (h : isValidFileChunk chunk = true) :
    chunk.chunkIndex < 4294967296 ∧ chunk.data.length < 4294967296 := by
  simp only [isValidFileChunk, Bool.and_eq_true, decide_eq_true_eq] at h
  obtain ⟨⟨-, hindex⟩, hdata⟩ := h
  have hchunks : FILE_TRANSFER_MAX_CHUNKS < 4294967296 := by decide
  have hchunk : FILE_TRANSFER_MAX_CHUNK_SIZE < 4294967296 := by decide
  omega

theorem deserializeFileChunk_serialize {chunk : FileTransferChunk}
    (h : serializeFileChunk chunk = some payload) : deserializeFileChunk payload = some chunk := by
  unfold serializeFileChunk at h
  split_ifs at h with hvalid
  obtain rfl := Option.some.inj h
  rw [Bool.not_eq_true', Bool.not_eq_false] at hvalid
  obtain ⟨hindex, hlength⟩ := fields_lt_of_isValidFileChunk hvalid
  have hread := @WireReader.readBytes_append chunk.data.length chunk.data [] rfl
  rw [List.append_nil] at hread
  simp only [deserializeFileChunk, WireReader.readU64_beBytes, WireReader.readU32_beBytes_of_lt hindex,
    WireReader.readU32_beBytes_of_lt hlength, Option.bind_eq_bind, Option.bind_some,
    UInt32.toNat_ofNat_of_lt' hindex, UInt32.toNat_ofNat_of_lt' hlength, hread, hvalid]
  rfl

theorem serializeFileChunk_deserialize {chunk : FileTransferChunk}
    (h : deserializeFileChunk payload = some chunk) : serializeFileChunk chunk = some payload := by
  simp only [deserializeFileChunk, Option.bind_eq_bind, Option.bind_eq_some_iff] at h
  obtain ⟨⟨transferId, reader₁⟩, hid, ⟨chunkIndex, reader₂⟩, hindex, ⟨dataLength, reader₃⟩, hlength,
    ⟨data, reader₄⟩, hdata, h⟩ := h
  split_ifs at h with hfinished hvalid
  obtain rfl := Option.some.inj h
  obtain ⟨hdataLength, hdataBytes⟩ := WireReader.readBytes_eq_some hdata
  have hend : reader₄.rest = [] := by simpa [WireReader.finished] using hfinished
  have hpayload : payload = beBytes 8 transferId.toNat ++ reader₁.rest := WireReader.rest_of_readU64 hid
  rw [hpayload, WireReader.rest_of_readU32 hindex, WireReader.rest_of_readU32 hlength, hdataBytes, hend,
    List.append_nil, ← hdataLength]
  exact if_neg hvalid

/-! ### Acknowledgements -/

theorem readAckRanges_eq_some {count previousEnd : Nat} {reader reader' : WireReader} {ranges : List FileAckRange}
    (h : readAckRanges count previousEnd reader = some (ranges, reader')) :
    ranges.length = count ∧ FileAckRange.allFollow previousEnd ranges = true ∧
      reader.rest = ranges.flatMap FileAckRange.write ++ reader'.rest := by
  induction count generalizing previousEnd reader ranges with
  | zero =>
    obtain ⟨rfl, rfl⟩ := Prod.mk.inj (Option.some.inj h)
    exact ⟨rfl, rfl, rfl⟩
  | succ count ih =>
    simp only [readAckRanges, Option.bind_eq_bind, Option.bind_eq_some_iff] at h
    obtain ⟨⟨first, reader₁⟩, hfirst, ⟨length, reader₂⟩, hlength, h⟩ := h
    split_ifs at h with hfollows
    simp only [Option.bind_eq_some_iff] at h
    obtain ⟨⟨rest, last⟩, hrest, heq⟩ := h
    obtain ⟨rfl, rfl⟩ := Prod.mk.inj (Option.some.inj heq)
    obtain ⟨hcount, hall, hbytes⟩ := ih hrest
    rw [Bool.not_eq_true', Bool.not_eq_false] at hfollows
    refine ⟨congrArg (· + 1) hcount, ?_, ?_⟩
    · rw [FileAckRange.allFollow, hfollows, hall]
      rfl
    · rw [WireReader.rest_of_readU32 hfirst, WireReader.rest_of_readU32 hlength, hbytes, List.flatMap_cons,
        FileAckRange.write, List.append_assoc, List.append_assoc]

theorem toUInt8_flag {flags : UInt8} (h : flags &&& 0xFE = 0) : (decide (flags &&& 1 ≠ 0)).toUInt8 = flags :=
  forall_byte (p := fun flags => flags &&& 0xFE = 0 → (decide (flags &&& 1 ≠ 0)).toUInt8 = flags) (by decide +kernel)
    flags h

theorem serializeFileAck_deserialize {ack : FileTransferAck}
    (h : deserializeFileAck payload = some ack) : serializeFileAck ack = some payload := by
  simp only [deserializeFileAck, Option.bind_eq_bind, Option.bind_eq_some_iff] at h
  obtain ⟨⟨transferId, reader₁⟩, hid, ⟨flags, reader₂⟩, hflags, ⟨reserved, reader₃⟩, hreserved,
    ⟨rangeCount, reader₄⟩, hcount, h⟩ := h
  split_ifs at h with hrefused
  simp only [Option.bind_eq_some_iff] at h
  obtain ⟨⟨ranges, reader₅⟩, hranges, h⟩ := h
  split_ifs at h with hfinished
  obtain rfl := Option.some.inj h
  simp only [not_or, not_ne_iff, not_lt] at hrefused
  obtain ⟨hnonzero, hknown, rfl, hmax⟩ := hrefused
  obtain ⟨hlength, hfollow, hbytes⟩ := readAckRanges_eq_some hranges
  have hend : reader₅.rest = [] := List.isEmpty_iff.mp hfinished
  have hpayload : payload = beBytes 8 transferId.toNat ++ reader₁.rest := WireReader.rest_of_readU64 hid
  have hlimits : ¬(transferId = 0 ∨ FILE_ACK_MAX_RANGES < ranges.length) := by
    rw [not_or, not_lt, hlength]
    exact ⟨hnonzero, hmax⟩
  rw [serializeFileAck, if_neg hlimits, hfollow, toUInt8_flag hknown, hpayload, WireReader.rest_of_readU8 hflags,
    WireReader.rest_of_readU8 hreserved, WireReader.rest_of_readU16 hcount, hbytes, hend, List.append_nil, hlength]
  rfl

/-! ### Cancellations -/

theorem deserializeFileCancel_serialize {cancel : FileTransferCancel}
    (h : serializeFileCancel cancel = some payload) : deserializeFileCancel payload = some cancel := by
  unfold serializeFileCancel at h
  dsimp only at h
  split_ifs at h with hrefused
  obtain rfl := Option.some.inj h
  rw [not_or] at hrefused
  have hread := @WireReader.readU16_beBytes_of_lt 0 (by decide) []
  rw [List.append_nil] at hread
  simp only [deserializeFileCancel, WireReader.readU64_beBytes, WireReader.readU8_cons, hread, Option.bind_eq_bind,
    Option.bind_some, FileCancelReason.ofByte?_toByte]
  simp [WireReader.finished, hrefused.1]

theorem serializeFileCancel_deserialize {cancel : FileTransferCancel}
    (h : deserializeFileCancel payload = some cancel) : serializeFileCancel cancel = some payload := by
  simp only [deserializeFileCancel, Option.bind_eq_bind, Option.bind_eq_some_iff] at h
  obtain ⟨⟨transferId, reader₁⟩, hid, ⟨reasonByte, reader₂⟩, hbyte, ⟨reservedByte, reader₃⟩, hreserved,
    ⟨reservedWord, reader₄⟩, hword, h⟩ := h
  split_ifs at h with hrefused
  obtain ⟨reason, hreason, rfl⟩ := Option.map_eq_some_iff.mp h
  simp only [not_or, not_ne_iff, Bool.not_eq_true', Bool.not_eq_false] at hrefused
  obtain ⟨hfinished, hnonzero, rfl, rfl⟩ := hrefused
  dsimp only at hreason
  have hend : reader₄.rest = [] := List.isEmpty_iff.mp hfinished
  have hpayload : payload = beBytes 8 transferId.toNat ++ reader₁.rest := WireReader.rest_of_readU64 hid
  have hknown : ¬(transferId = 0 ∨ reason.toByte < 1 ∨ 4 < reason.toByte) := by
    rintro (hzero | hunknown)
    · exact hnonzero hzero
    · cases reason <;> simp [FileCancelReason.toByte] at hunknown
  rw [hpayload, WireReader.rest_of_readU8 hbyte, WireReader.rest_of_readU8 hreserved,
    WireReader.rest_of_readU16 hword, hend, List.append_nil, ← FileCancelReason.toByte_of_ofByte? hreason]
  exact if_neg hknown

/-- Every message that is written reads back, and every payload that is read is the one that is written for the
message that was read. -/
theorem file_messages_canonical :
    CanonicalCodec serializeFileHeader deserializeFileHeader ∧
    CanonicalCodec serializeFileChunk deserializeFileChunk ∧
    CanonicalCodec serializeFileAck deserializeFileAck ∧
    CanonicalCodec serializeFileCancel deserializeFileCancel := by
  refine ⟨⟨fun _ _ => ?_, fun _ _ => ?_⟩, ⟨fun _ _ => ?_, fun _ _ => ?_⟩, ⟨fun _ _ => ?_, fun _ _ => ?_⟩,
    ⟨fun _ _ => ?_, fun _ _ => ?_⟩⟩
  · exact deserializeFileHeader_serialize
  · exact serializeFileHeader_deserialize
  · exact deserializeFileChunk_serialize
  · exact serializeFileChunk_deserialize
  · exact deserializeFileAck_serialize
  · exact serializeFileAck_deserialize
  · exact deserializeFileCancel_serialize
  · exact serializeFileCancel_deserialize

end Aegis
