import Aegis.Packet.IPPacket
import Aegis.Lib.OnesComplement

/-!
# The header checksum

`ip_checksum` adds 16-bit words in the byte order of a little-endian host and folds the carries at the end.
The Internet checksum adds big-endian words and carries around at every addition. Swapping the bytes of a word
multiplies it by 256 modulo 65535, which is a unit there, so both tests accept the same headers.
-/

namespace Aegis

open OnesComplement

/-- The big-endian 16-bit words of a header; an odd last byte is padded with a zero on the right. -/
def bigEndianWords : List UInt8 → List Nat
  | high :: low :: rest => (256 * high.toNat + low.toNat) :: bigEndianWords rest
  | [last] => [256 * last.toNat]
  | [] => []

/-- The one's-complement sum of the 16-bit words of a header. -/
def internetSum (header : List UInt8) : Nat := endAroundSum (2 ^ 16) (bigEndianWords header)

theorem lt_of_mem_bigEndianWords (header : List UInt8) : ∀ word ∈ bigEndianWords header, word < 2 ^ 16 := by
  fun_induction bigEndianWords header with
  | case1 high low rest ih =>
    have hhigh := high.toNat_lt
    have hlow := low.toNat_lt
    refine List.forall_mem_cons.mpr ⟨by omega, ih⟩
  | case2 last =>
    have hlast := last.toNat_lt
    refine List.forall_mem_singleton.mpr (by omega)
  | case3 => exact fun _ h => absurd h List.not_mem_nil

/-- The words of the host are the words of the network with their bytes swapped. -/
theorem checksumWords_modEq (header : List UInt8) :
    checksumWords header ≡ 256 * (bigEndianWords header).sum [MOD 2 ^ 16 - 1] := by
  fun_induction bigEndianWords header with
  | case1 high low rest ih =>
    rw [checksumWords, List.sum_cons, Nat.mul_add]
    refine Nat.ModEq.add ?_ ih
    show (high.toNat + 256 * low.toNat) % 65535 = 256 * (256 * high.toNat + low.toNat) % 65535
    omega
  | case2 last =>
    show last.toNat % 65535 = 256 * (256 * last.toNat + 0) % 65535
    omega
  | case3 => rfl

theorem checksumWords_eq_zero_iff (header : List UInt8) :
    checksumWords header = 0 ↔ (bigEndianWords header).sum = 0 := by
  fun_induction bigEndianWords header with
  | case1 high low rest ih =>
    rw [checksumWords, List.sum_cons]
    omega
  | case2 last =>
    show last.toNat = 0 ↔ 256 * last.toNat + 0 = 0
    omega
  | case3 => exact Iff.rfl

theorem checksumWords_le (header : List UInt8) : checksumWords header ≤ 65535 * header.length := by
  fun_induction checksumWords header with
  | case1 low high rest ih =>
    have hlow := low.toNat_lt
    have hhigh := high.toNat_lt
    simp only [List.length_cons]
    omega
  | case2 last =>
    have hlast := last.toNat_lt
    rw [List.length_singleton]
    omega
  | case3 => exact Nat.zero_le _

theorem folded_foldCarries {rounds sum : Nat} (h : foldCarries rounds sum < 2 ^ 16) :
    Folded (2 ^ 16) sum (foldCarries rounds sum) := by
  induction rounds generalizing sum with
  | zero => exact Folded.of_lt h
  | succ rounds ih =>
    unfold foldCarries at h ⊢
    by_cases hcarry : sum / 2 ^ 16 = 0
    · rw [if_pos hcarry] at h ⊢
      exact Folded.of_lt h
    · rw [if_neg hcarry] at h ⊢
      exact (ih h).of_fold

/-- The host's test of a header is that of the Internet checksum, as long as 32 bits hold the sum. -/
theorem ipChecksum_eq_iff {header : List UInt8} (h : header.length ≤ 2 ^ 16) :
    ipChecksum header = 0xFFFF ↔ internetSum header = 0xFFFF := by
  have hle := checksumWords_le header
  have hlt : checksumWords header < 2 ^ 32 := by omega
  have hfold := foldCarries_lt hlt
  have hhost : ipChecksum header = 0xFFFF ↔ foldCarries 2 (checksumWords header) = 2 ^ 16 - 1 := by
    rw [ipChecksum, Nat.mod_eq_of_lt hlt, ← UInt16.toNat_inj, UInt16.toNat_ofNat_of_lt' hfold]
    rfl
  have hnetwork : (bigEndianWords header).sum ≡ 256 * checksumWords header [MOD 2 ^ 16 - 1] := by
    have hswap : 256 * checksumWords header % 65535 = 256 * (256 * (bigEndianWords header).sum) % 65535 :=
      (checksumWords_modEq header).mul_left 256
    show (bigEndianWords header).sum % 65535 = 256 * checksumWords header % 65535
    omega
  rw [hhost]
  exact (folded_foldCarries hfold).eq_top_iff_of_mul (by decide)
    (Folded.endAroundSum (by decide) _ (lt_of_mem_bigEndianWords header)) (checksumWords_modEq header) hnetwork
    (checksumWords_eq_zero_iff header)

/-- Everything that `IPPacket::parse` asks of a header, the checksum apart. -/
structure HeaderFits (data : List UInt8) : Prop where
  length : 20 ≤ data.length
  version : data.getD 0 0 >>> 4 = 4
  ihl : 5 ≤ data.getD 0 0 &&& 0x0F
  header : (data.getD 0 0 &&& 0x0F).toNat * 4 ≤ data.length
  total : (data.getD 0 0 &&& 0x0F).toNat * 4 ≤ (UInt16.ofNat (beNat [data.getD 2 0, data.getD 3 0])).toNat
  total_le : (UInt16.ofNat (beNat [data.getD 2 0, data.getD 3 0])).toNat ≤ data.length

theorem parse_isSome_iff (data : List UInt8) :
    (IPPacket.parse data).isSome = true ↔ HeaderFits data ∧
      ipChecksum (data.take ((data.getD 0 0 &&& 0x0F).toNat * 4)) = 0xFFFF := by
  unfold IPPacket.parse
  dsimp only
  split_ifs with hlength hversion hihl hheader htotal hchecksum
  · exact iff_of_false (by decide) fun h => absurd hlength (Nat.not_lt.mpr h.1.length)
  · exact iff_of_false (by decide) fun h => hversion h.1.version
  · exact iff_of_false (by decide) fun h => absurd hihl (UInt8.not_lt.mpr h.1.ihl)
  · exact iff_of_false (by decide) fun h => absurd hheader (Nat.not_lt.mpr h.1.header)
  · refine iff_of_false (by decide) fun h => ?_
    rcases htotal with htotal | htotal
    · exact absurd htotal (Nat.not_lt.mpr h.1.total)
    · exact absurd htotal (Nat.not_lt.mpr h.1.total_le)
  · exact iff_of_false (by decide) fun h => hchecksum h.2
  · rw [not_or] at htotal
    refine iff_of_true rfl ⟨⟨?_, ?_, ?_, ?_, ?_, ?_⟩, not_not.mp hchecksum⟩
    · exact Nat.not_lt.mp hlength
    · exact not_not.mp hversion
    · exact UInt8.not_lt.mp hihl
    · exact Nat.not_lt.mp hheader
    · exact Nat.not_lt.mp htotal.1
    · exact Nat.not_lt.mp htotal.2

/-- The header checksum is that of the Internet protocol: on every byte string as long as a header can be, and
on longer ones as long as a packet can be, the host's test holds iff the one's-complement sum of the big-endian
words is all ones. A packet that is well formed otherwise is accepted iff its header has that sum. -/
theorem header_checksum_is_internet_checksum :
    (∀ header : List UInt8, header.length ≤ 2 ^ 16 →
      (ipChecksum header = 0xFFFF ↔ internetSum header = 0xFFFF)) ∧
    ∀ data : List UInt8, (IPPacket.parse data).isSome = true ↔ HeaderFits data ∧
      internetSum (data.take ((data.getD 0 0 &&& 0x0F).toNat * 4)) = 0xFFFF := by
  refine ⟨fun header hlength => ipChecksum_eq_iff hlength, fun data => ?_⟩
  have hihl : (data.getD 0 0 &&& 0x0F).toNat ≤ 15 := by
    rw [UInt8.toNat_and]
    exact Nat.and_le_right
  rw [parse_isSome_iff, ipChecksum_eq_iff]
  rw [List.length_take]
  omega

end Aegis
