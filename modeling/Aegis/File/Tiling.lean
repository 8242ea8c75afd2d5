import Aegis.File.Messages

/-!
# The chunks of a file tile it

The receiver gives every chunk but the last the chunk size and the last one what is left
(`is_valid_file_chunk_for_header`); `Tunnel::send_file` takes the smaller of the chunk size and what is left
from every chunk's offset. Under a valid header both end chunk `i` at the smaller of `(i + 1) * chunk_size` and
`file_size`, from which everything else follows. The functions whose casts and subtractions matter are given
in machine words too, and agree with the natural numbers.
-/

namespace Aegis

variable {header : FileTransferHeader} {i : Nat}

/-! ### In machine words -/

def fileTransferChunkCountWord (fileSize : UInt64) (chunkSize : UInt32) : UInt32 :=
  if UInt64.ofNat FILE_TRANSFER_MAX_FILE_SIZE < fileSize ∨ chunkSize < UInt32.ofNat FILE_TRANSFER_MIN_CHUNK_SIZE ∨
      UInt32.ofNat FILE_TRANSFER_MAX_CHUNK_SIZE < chunkSize then 0
  else if fileSize = 0 then 1
  else (1 + (fileSize - 1) / chunkSize.toUInt64).toUInt32

/-- The size the receiver expects of a chunk. -/
def expectedChunkSizeWord (fileSize : UInt64) (chunkSize totalChunks chunkIndex : UInt32) : UInt64 :=
  if chunkIndex + 1 = totalChunks then fileSize - chunkIndex.toUInt64 * chunkSize.toUInt64
  else chunkSize.toUInt64

/-- The number of bytes `send_file` reads for a chunk. -/
def sendFileChunkLength (fileSize : UInt64) (chunkSize chunkIndex : UInt32) : UInt64 :=
  let offset := chunkIndex.toUInt64 * chunkSize.toUInt64
  if fileSize - offset < chunkSize.toUInt64 then fileSize - offset else chunkSize.toUInt64

/-! ### What a valid header says -/

/-- The limits of a valid header, and its number of chunks: all but the last are full, and all hold the file. -/
structure HeaderLimits (header : FileTransferHeader) : Prop where
  transferId : header.transferId ≠ 0
  fileSize : header.fileSize ≤ FILE_TRANSFER_MAX_FILE_SIZE
  minChunk : FILE_TRANSFER_MIN_CHUNK_SIZE ≤ header.chunkSize
  maxChunk : header.chunkSize ≤ FILE_TRANSFER_MAX_CHUNK_SIZE
  totalChunks : header.totalChunks = if header.fileSize = 0 then 1 else 1 + (header.fileSize - 1) / header.chunkSize

theorem headerLimits_of_valid (h : isValidFileHeader header = true) : HeaderLimits header := by
  simp only [isValidFileHeader, Bool.and_eq_true, decide_eq_true_eq] at h
  obtain ⟨⟨⟨hid, hpos⟩, htotal⟩, -⟩ := h
  unfold fileTransferChunkCount at hpos htotal
  by_cases hlimits : FILE_TRANSFER_MAX_FILE_SIZE < header.fileSize ∨
      header.chunkSize < FILE_TRANSFER_MIN_CHUNK_SIZE ∨ FILE_TRANSFER_MAX_CHUNK_SIZE < header.chunkSize
  · rw [if_pos hlimits] at hpos
    exact absurd rfl hpos
  · rw [if_neg hlimits] at htotal
    simp only [not_or, not_lt] at hlimits
    exact ⟨hid, hlimits.1, hlimits.2.1, hlimits.2.2, htotal⟩

namespace HeaderLimits

section

variable (h : HeaderLimits header)
include h

theorem chunkSize_pos : 0 < header.chunkSize :=
  Nat.lt_of_lt_of_le (by decide) h.minChunk

theorem fileSize_le : header.fileSize ≤ header.totalChunks * header.chunkSize := by
  rw [h.totalChunks]
  split_ifs with hzero
  · omega
  · have hlt := Nat.lt_div_mul_add h.chunkSize_pos (a := header.fileSize - 1)
    rw [Nat.add_comm 1, Nat.add_mul, Nat.one_mul]
    omega

theorem offset_le (hi : i < header.totalChunks) : i * header.chunkSize ≤ header.fileSize := by
  have htotal := h.totalChunks
  split_ifs at htotal with hzero
  · obtain rfl : i = 0 := by omega
    omega
  · have hi' : i ≤ (header.fileSize - 1) / header.chunkSize := by omega
    have hle := Nat.mul_le_of_le_div _ _ _ hi'
    omega

theorem offset_add_expectedChunkSize (hi : i < header.totalChunks) :
    i * header.chunkSize + expectedChunkSize header i = min ((i + 1) * header.chunkSize) header.fileSize := by
  unfold expectedChunkSize
  split_ifs with hlast
  · have hle := h.fileSize_le
    rw [← hlast] at hle
    rw [Nat.add_sub_cancel' (h.offset_le hi), min_eq_right hle]
  · have hle : (i + 1) * header.chunkSize ≤ header.fileSize := h.offset_le (by omega)
    rw [min_eq_left hle, Nat.add_mul, Nat.one_mul]

theorem expectedChunkSize_le (hi : i < header.totalChunks) : expectedChunkSize header i ≤ header.chunkSize := by
  have hend := h.offset_add_expectedChunkSize hi
  rw [Nat.add_mul, Nat.one_mul] at hend
  omega

/-! ### The words agree -/

theorem toNat_fileSize : (UInt64.ofNat header.fileSize).toNat = header.fileSize :=
  UInt64.toNat_ofNat_of_lt' (Nat.lt_of_le_of_lt h.fileSize (by decide))

theorem toNat_chunkSize : (UInt32.ofNat header.chunkSize).toUInt64.toNat = header.chunkSize := by
  rw [UInt32.toNat_toUInt64]
  exact UInt32.toNat_ofNat_of_lt' (Nat.lt_of_le_of_lt h.maxChunk (by decide))

end

theorem toNat_index (hvalid : isValidFileHeader header = true) (hi : i ≤ header.totalChunks) :
    (UInt32.ofNat i).toNat = i :=
  UInt32.toNat_ofNat_of_lt' (Nat.lt_of_le_of_lt (hi.trans (totalChunks_bounds hvalid).2) (by decide))

theorem toNat_offset (h : HeaderLimits header) (hvalid : isValidFileHeader header = true)
    (hi : i < header.totalChunks) :
    ((UInt32.ofNat i).toUInt64 * (UInt32.ofNat header.chunkSize).toUInt64).toNat = i * header.chunkSize := by
  rw [UInt64.toNat_mul, h.toNat_chunkSize, UInt32.toNat_toUInt64, toNat_index hvalid (Nat.le_of_lt hi)]
  apply Nat.mod_eq_of_lt
  exact Nat.lt_of_le_of_lt ((h.offset_le hi).trans h.fileSize) (by decide)

theorem toNat_left (h : HeaderLimits header) (hvalid : isValidFileHeader header = true) (hi : i < header.totalChunks) :
    (UInt64.ofNat header.fileSize - (UInt32.ofNat i).toUInt64 * (UInt32.ofNat header.chunkSize).toUInt64).toNat
      = header.fileSize - i * header.chunkSize := by
  rw [UInt64.toNat_sub_of_le, h.toNat_fileSize, h.toNat_offset hvalid hi]
  rw [UInt64.le_iff_toNat_le, h.toNat_fileSize, h.toNat_offset hvalid hi]
  exact h.offset_le hi

theorem toNat_expectedChunkSizeWord (h : HeaderLimits header) (hvalid : isValidFileHeader header = true)
    (hi : i < header.totalChunks) :
    (expectedChunkSizeWord (UInt64.ofNat header.fileSize) (UInt32.ofNat header.chunkSize)
      (UInt32.ofNat header.totalChunks) (UInt32.ofNat i)).toNat = expectedChunkSize header i := by
  have hlast : UInt32.ofNat i + 1 = UInt32.ofNat header.totalChunks ↔ i + 1 = header.totalChunks := by
    rw [← UInt32.toNat_inj, UInt32.toNat_add, toNat_index hvalid (Nat.le_of_lt hi), toNat_index hvalid (Nat.le_refl _)]
    have hmax := (totalChunks_bounds hvalid).2
    have hsmall : FILE_TRANSFER_MAX_CHUNKS < 2 ^ 32 := by decide
    rw [show UInt32.toNat 1 = 1 from rfl, Nat.mod_eq_of_lt (by omega)]
  unfold expectedChunkSizeWord expectedChunkSize
  by_cases hend : i + 1 = header.totalChunks
  · rw [if_pos (hlast.mpr hend), if_pos hend, h.toNat_left hvalid hi]
  · rw [if_neg (mt hlast.mp hend), if_neg hend, h.toNat_chunkSize]

theorem toNat_sendFileChunkLength (h : HeaderLimits header) (hvalid : isValidFileHeader header = true)
    (hi : i < header.totalChunks) :
    (sendFileChunkLength (UInt64.ofNat header.fileSize) (UInt32.ofNat header.chunkSize) (UInt32.ofNat i)).toNat
      = expectedChunkSize header i := by
  have hend := h.offset_add_expectedChunkSize hi
  have hoffset := h.offset_le hi
  rw [Nat.add_mul, Nat.one_mul] at hend
  simp only [sendFileChunkLength, UInt64.lt_iff_toNat_lt, h.toNat_left hvalid hi, h.toNat_chunkSize]
  split_ifs with hshort
  · rw [h.toNat_left hvalid hi]
    omega
  · rw [h.toNat_chunkSize]
    omega

end HeaderLimits

theorem toNat_fileTransferChunkCountWord (fileSize : UInt64) (chunkSize : UInt32) :
    (fileTransferChunkCountWord fileSize chunkSize).toNat
      = fileTransferChunkCount fileSize.toNat chunkSize.toNat := by
  have hlimits : (UInt64.ofNat FILE_TRANSFER_MAX_FILE_SIZE < fileSize ∨
      chunkSize < UInt32.ofNat FILE_TRANSFER_MIN_CHUNK_SIZE ∨ UInt32.ofNat FILE_TRANSFER_MAX_CHUNK_SIZE < chunkSize) ↔
      (FILE_TRANSFER_MAX_FILE_SIZE < fileSize.toNat ∨ chunkSize.toNat < FILE_TRANSFER_MIN_CHUNK_SIZE ∨
        FILE_TRANSFER_MAX_CHUNK_SIZE < chunkSize.toNat) := by
    rw [UInt64.lt_iff_toNat_lt, UInt32.lt_iff_toNat_lt, UInt32.lt_iff_toNat_lt]
    rfl
  have hzero : fileSize = 0 ↔ fileSize.toNat = 0 := by rw [← UInt64.toNat_inj]; rfl
  unfold fileTransferChunkCountWord fileTransferChunkCount
  by_cases hout : FILE_TRANSFER_MAX_FILE_SIZE < fileSize.toNat ∨ chunkSize.toNat < FILE_TRANSFER_MIN_CHUNK_SIZE ∨
      FILE_TRANSFER_MAX_CHUNK_SIZE < chunkSize.toNat
  · rw [if_pos (hlimits.mpr hout), if_pos hout]
    rfl
  · rw [if_neg (mt hlimits.mp hout), if_neg hout]
    by_cases hempty : fileSize.toNat = 0
    · rw [if_pos (hzero.mpr hempty), if_pos hempty]
      rfl
    · rw [if_neg (mt hzero.mp hempty), if_neg hempty]
      have hone : (1 : UInt64) ≤ fileSize := UInt64.le_iff_toNat_le.mpr (Nat.pos_of_ne_zero hempty)
      have hquotient := Nat.div_le_self (fileSize.toNat - 1) chunkSize.toNat
      have hmax : FILE_TRANSFER_MAX_FILE_SIZE + 1 < 2 ^ 32 := by decide
      rw [UInt64.toNat_toUInt32, UInt64.toNat_add, UInt64.toNat_div, UInt64.toNat_sub_of_le _ _ hone,
        UInt32.toNat_toUInt64, show UInt64.toNat 1 = 1 from rfl]
      have hsmall : 1 + (fileSize.toNat - 1) / chunkSize.toNat < 2 ^ 32 := by omega
      rw [Nat.mod_eq_of_lt (hsmall.trans (by decide)), Nat.mod_eq_of_lt hsmall]

/-- The chunks of a valid header tile the file: every byte is in exactly one of them, none reaches past the
end, no offset passes the size, and a chunk is accepted at one size only, which is the one `send_file` gives
it, in natural numbers and in machine words. -/
theorem chunks_tile_file (header : FileTransferHeader) (hvalid : isValidFileHeader header = true) :
    (∀ byte < header.fileSize, ∃! i, i < header.totalChunks ∧ i * header.chunkSize ≤ byte ∧
      byte < i * header.chunkSize + expectedChunkSize header i) ∧
    (∀ i < header.totalChunks, i * header.chunkSize ≤ header.fileSize ∧
      i * header.chunkSize + expectedChunkSize header i ≤ header.fileSize) ∧
    (∀ chunk : FileTransferChunk, chunk.transferId = header.transferId → chunk.chunkIndex < header.totalChunks →
      (isValidFileChunkForHeader header chunk = true ↔
        chunk.data.length = expectedChunkSize header chunk.chunkIndex)) ∧
    (∀ i < header.totalChunks,
      (expectedChunkSizeWord (UInt64.ofNat header.fileSize) (UInt32.ofNat header.chunkSize)
        (UInt32.ofNat header.totalChunks) (UInt32.ofNat i)).toNat = expectedChunkSize header i ∧
      (sendFileChunkLength (UInt64.ofNat header.fileSize) (UInt32.ofNat header.chunkSize)
        (UInt32.ofNat i)).toNat = expectedChunkSize header i) ∧
    (fileTransferChunkCountWord (UInt64.ofNat header.fileSize) (UInt32.ofNat header.chunkSize)).toNat
      = header.totalChunks := by
  have h := headerLimits_of_valid hvalid
  refine ⟨fun byte hbyte => ?_, fun i hi => ⟨h.offset_le hi, ?_⟩, fun chunk hid hindex => ?_, fun i hi => ?_, ?_⟩
  · have hindex : byte / header.chunkSize < header.totalChunks :=
      Nat.div_lt_of_lt_mul (Nat.mul_comm _ _ ▸ Nat.lt_of_lt_of_le hbyte h.fileSize_le)
    refine ⟨byte / header.chunkSize, ⟨hindex, Nat.div_mul_le_self _ _, ?_⟩, ?_⟩
    · have hnext := Nat.lt_div_mul_add h.chunkSize_pos (a := byte)
      rw [h.offset_add_expectedChunkSize hindex, Nat.add_mul, Nat.one_mul]
      exact lt_min hnext hbyte
    · rintro i ⟨hi, hge, hlt⟩
      rw [h.offset_add_expectedChunkSize hi] at hlt
      exact (Nat.div_eq_of_lt_le hge (hlt.trans_le (min_le_left _ _))).symm
  · rw [h.offset_add_expectedChunkSize hi]
    exact min_le_right _ _
  · have hsize := (h.expectedChunkSize_le hindex).trans h.maxChunk
    have hcount := (totalChunks_bounds hvalid).2
    have hid' : chunk.transferId ≠ 0 := hid ▸ h.transferId
    simp only [isValidFileChunkForHeader, isValidFileChunk, Bool.and_eq_true, decide_eq_true_eq]
    constructor
    · exact fun hchunk => hchunk.2
    · intro hlength
      exact ⟨⟨⟨⟨hvalid, ⟨by simpa using hid', by omega⟩, by omega⟩, hid⟩, hindex⟩, hlength⟩
  · exact ⟨h.toNat_expectedChunkSizeWord hvalid hi, h.toNat_sendFileChunkLength hvalid hi⟩
  · have hcount : header.totalChunks = fileTransferChunkCount header.fileSize header.chunkSize := by
      simp only [isValidFileHeader, Bool.and_eq_true, decide_eq_true_eq] at hvalid
      exact hvalid.1.2
    rw [toNat_fileTransferChunkCountWord, h.toNat_fileSize, ← UInt32.toNat_toUInt64, h.toNat_chunkSize, hcount]

/-- A file of 1000 bytes in chunks of 512. -/
theorem chunks_tile_file_1000 :
    let header : FileTransferHeader := ⟨1, 1000, 512, 2, default, [97]⟩
    expectedChunkSize header 1 = 488 ∧ ∀ byte < 1000, ∃! i, i < 2 ∧ i * 512 ≤ byte ∧
      byte < i * 512 + expectedChunkSize header i :=
  ⟨by decide, (chunks_tile_file ⟨1, 1000, 512, 2, default, [97]⟩ (by decide)).1⟩

end Aegis
