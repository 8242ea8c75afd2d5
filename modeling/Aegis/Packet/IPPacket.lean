import Aegis.Wire.Bytes

/-!
# Inner packets

`IPPacket::parse` of `packet/packet.cpp`: the IPv4 packets the virtual adapter hands over. The checksum
reads 16-bit words in the byte order of a little-endian host.
-/

namespace Aegis

/-- The sum of the 16-bit words; an odd last byte is a word of its own. -/
def checksumWords : List UInt8 → Nat
  | low :: high :: rest => low.toNat + 256 * high.toNat + checksumWords rest
  | [last] => last.toNat
  | [] => 0

/-- The loop that adds the carries back in, for at most `rounds` turns. -/
def foldCarries : Nat → Nat → Nat
  | 0, sum => sum
  | rounds + 1, sum => if sum / 2 ^ 16 = 0 then sum else foldCarries rounds (sum % 2 ^ 16 + sum / 2 ^ 16)

theorem foldCarries_lt {sum : Nat} (h : sum < 2 ^ 32) : foldCarries 2 sum < 2 ^ 16 := by
  unfold foldCarries foldCarries foldCarries
  split_ifs <;> omega

def ipChecksum (data : List UInt8) : UInt16 := UInt16.ofNat (foldCarries 2 (checksumWords data % 2 ^ 32))

structure IPPacket where
  versionIhl : UInt8
  dscpEcn : UInt8
  totalLength : UInt16
  identification : UInt16
  flagsFragmentOffset : UInt16
  ttl : UInt8
  protocol : UInt8
  headerChecksum : UInt16
  sourceIp : UInt32
  destIp : UInt32
  payload : List UInt8
deriving DecidableEq

def IPPacket.parse (data : List UInt8) : Option IPPacket :=
  let byte := fun i => data.getD i 0
  let word := fun i => UInt16.ofNat (beNat [byte i, byte (i + 1)])
  let address := fun i => UInt32.ofNat (beNat [byte i, byte (i + 1), byte (i + 2), byte (i + 3)])
  if data.length < 20 then none
  else if byte 0 >>> 4 ≠ 4 then none
  else
    let ihl := byte 0 &&& 0x0F
    if ihl < 5 then none
    else
      let headerLen := ihl.toNat * 4
      if data.length < headerLen then none
      else
        let totalLen := word 2
        if totalLen.toNat < headerLen ∨ data.length < totalLen.toNat then none
        else if ipChecksum (data.take headerLen) ≠ 0xFFFF then none
        else some
          { versionIhl := byte 0, dscpEcn := byte 1, totalLength := totalLen, identification := word 4,
            flagsFragmentOffset := word 6, ttl := byte 8, protocol := byte 9, headerChecksum := word 10,
            sourceIp := address 12, destIp := address 16,
            payload := (data.drop headerLen).take (totalLen.toNat - headerLen) }

end Aegis
