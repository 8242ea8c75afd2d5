import Aegis.Wire.Bytes
import Mathlib.Data.List.GetD

/-!
# Addresses and prefixes

`net/ip_address.hpp`. An address is a family and sixteen bytes, of which an IPv4 address uses the first
four. A prefix is held in canonical form: the bits after its length are zero, so that two spellings of one
network compare equal. The parsers of the textual forms and the comparison operators are left out.
-/

namespace Aegis

inductive IPAddressFamily where
  | ipv4
  | ipv6
deriving DecidableEq

def IPAddressFamily.toByte : IPAddressFamily → UInt8
  | .ipv4 => 4
  | .ipv6 => 6

structure IPAddress where
  family : IPAddressFamily := .ipv4
  bytes : FixedBytes 16 := FixedBytes.zero 16
deriving DecidableEq

structure Endpoint where
  address : IPAddress := {}
  port : UInt16 := 0
deriving DecidableEq

namespace IPAddress

def fromIpv4 (networkOrder : UInt32) : IPAddress where
  bytes := FixedBytes.copy 16 [(networkOrder >>> 24).toUInt8, (networkOrder >>> 16).toUInt8,
    (networkOrder >>> 8).toUInt8, networkOrder.toUInt8]

def bitWidth (address : IPAddress) : Nat :=
  match address.family with
  | .ipv4 => 32
  | .ipv6 => 128

/-- The number an IPv4 address is, zero for other families. -/
def ipv4Value (address : IPAddress) : UInt32 :=
  if address.family ≠ .ipv4 then 0
  else ((address.bytes.1.getD 0 0).toUInt32 <<< 24) ||| ((address.bytes.1.getD 1 0).toUInt32 <<< 16) |||
    ((address.bytes.1.getD 2 0).toUInt32 <<< 8) ||| (address.bytes.1.getD 3 0).toUInt32

/-- Byte `i` of a canonical prefix of the given length: the byte the length ends in keeps its leading
bits, the bytes after it are zero. -/
def canonicalByte (length i : Nat) (byte : UInt8) : UInt8 :=
  let fullBytes := length / 8
  let remainingBits := length % 8
  let zeroFrom := fullBytes + (if remainingBits ≠ 0 then 1 else 0)
  if remainingBits ≠ 0 ∧ i = fullBytes then byte &&& UInt8.ofNat (0xff <<< (8 - remainingBits))
  else if zeroFrom ≤ i then 0
  else byte

def canonicalize (address : IPAddress) (length : UInt8) : IPAddress :=
  if address.bitWidth < length.toNat then address
  else { address with
    bytes := ⟨address.bytes.1.mapIdx (canonicalByte length.toNat), by rw [List.length_mapIdx, address.bytes.2]⟩ }

theorem canonicalByte_canonicalByte (length i : Nat) (byte : UInt8) :
    canonicalByte length i (canonicalByte length i byte) = canonicalByte length i byte := by
  simp only [canonicalByte]
  split_ifs <;> simp [UInt8.and_assoc]

@[simp] theorem bitWidth_canonicalize (address : IPAddress) (length : UInt8) :
    (address.canonicalize length).bitWidth = address.bitWidth := by
  unfold canonicalize
  split_ifs <;> rfl

@[simp] theorem family_canonicalize (address : IPAddress) (length : UInt8) :
    (address.canonicalize length).family = address.family := by
  unfold canonicalize
  split_ifs <;> rfl

@[simp] theorem canonicalize_canonicalize (address : IPAddress) (length : UInt8) :
    (address.canonicalize length).canonicalize length = address.canonicalize length := by
  by_cases hlong : address.bitWidth < length.toNat
  · simp [canonicalize, hlong]
  · have hbytes : (address.bytes.1.mapIdx (canonicalByte length.toNat)).mapIdx (canonicalByte length.toNat)
        = address.bytes.1.mapIdx (canonicalByte length.toNat) := by
      rw [List.mapIdx_mapIdx]
      congr 1
      funext i byte
      exact canonicalByte_canonicalByte length.toNat i byte
    rw [canonicalize, bitWidth_canonicalize, if_neg hlong]
    simp only [canonicalize, if_neg hlong, hbytes]

/-! ### Bits -/

/-- Bit `i` of an address, in network order. -/
def bit (address : IPAddress) (i : Nat) : Bool := (address.bytes.1.getD (i / 8) 0).toNat.testBit (7 - i % 8)

theorem testBit_mask {count j : Nat} (hcount : count ≤ 8) (hj : j < 8) :
    (UInt8.ofNat (0xff <<< (8 - count))).toNat.testBit (7 - j) = decide (j < count) := by
  have hff : Nat.testBit 0xff (7 - j - (8 - count)) = true := by
    rw [show 0xff = 2 ^ 8 - 1 from rfl, Nat.testBit_two_pow_sub_one]
    exact decide_eq_true (by omega)
  rw [UInt8.toNat_ofNat', Nat.testBit_mod_two_pow, Nat.testBit_shiftLeft, hff]
  rw [decide_eq_true (show 7 - j < 8 by omega), Bool.true_and, Bool.and_true]
  exact decide_eq_decide.mpr (by omega)

theorem and_mask_eq_iff {count : Nat} (hcount : count ≤ 8) (a b : UInt8) :
    a &&& UInt8.ofNat (0xff <<< (8 - count)) = b &&& UInt8.ofNat (0xff <<< (8 - count)) ↔
      ∀ j < count, a.toNat.testBit (7 - j) = b.toNat.testBit (7 - j) := by
  rw [← UInt8.toNat_inj, UInt8.toNat_and, UInt8.toNat_and]
  constructor
  · intro h j hj
    have hbit := congrArg (fun n : Nat => n.testBit (7 - j)) h
    simp only [Nat.testBit_and, testBit_mask hcount (show j < 8 by omega), decide_eq_true hj,
      Bool.and_true] at hbit
    exact hbit
  · intro h
    apply Nat.eq_of_testBit_eq
    intro k
    rw [Nat.testBit_and, Nat.testBit_and]
    by_cases hk : k < 8
    · have hmask := testBit_mask hcount (show 7 - k < 8 by omega)
      have hbits := h (7 - k)
      rw [show 7 - (7 - k) = k by omega] at hmask hbits
      rw [hmask]
      by_cases hlt : 7 - k < count
      · rw [hbits hlt]
      · simp [hlt]
    · have hhigh : ∀ c : UInt8, c.toNat.testBit k = false := by
        intro c
        apply Nat.testBit_lt_two_pow
        exact c.toNat_lt.trans_le (Nat.pow_le_pow_right (by omega) (by omega))
      rw [hhigh a, hhigh b]

theorem eq_iff_bits (a b : UInt8) : a = b ↔ ∀ j < 8, a.toNat.testBit (7 - j) = b.toNat.testBit (7 - j) := by
  have h := and_mask_eq_iff (le_refl 8) a b
  rwa [show UInt8.ofNat (0xff <<< (8 - 8)) = -1 from rfl, UInt8.and_neg_one, UInt8.and_neg_one] at h

theorem take_bytes_eq_iff (a b : IPAddress) (count : Nat) :
    a.bytes.1.take count = b.bytes.1.take count ↔ ∀ i < 8 * count, a.bit i = b.bit i := by
  have hbytes : a.bytes.1.take count = b.bytes.1.take count ↔
      ∀ k < count, a.bytes.1.getD k 0 = b.bytes.1.getD k 0 := by
    constructor
    · intro h k hk
      have hget := congrArg (fun bytes : List UInt8 => bytes[k]?) h
      simp only [List.getElem?_take, hk, if_true] at hget
      rw [List.getD_eq_getElem?_getD, List.getD_eq_getElem?_getD, hget]
    · intro h
      apply List.ext_getElem?
      intro k
      rw [List.getElem?_take, List.getElem?_take]
      by_cases hk : k < count
      · rw [if_pos hk, if_pos hk]
        by_cases hlen : k < 16
        · have ha : k < a.bytes.1.length := by rw [a.bytes.2]; exact hlen
          have hb : k < b.bytes.1.length := by rw [b.bytes.2]; exact hlen
          have hget := h k hk
          rw [List.getD_eq_getElem _ _ ha, List.getD_eq_getElem _ _ hb] at hget
          rw [List.getElem?_eq_getElem ha, List.getElem?_eq_getElem hb, hget]
        · rw [List.getElem?_eq_none (by rw [a.bytes.2]; omega), List.getElem?_eq_none (by rw [b.bytes.2]; omega)]
      · rw [if_neg hk, if_neg hk]
  rw [hbytes]
  constructor
  · intro h i hi
    show (a.bytes.1.getD (i / 8) 0).toNat.testBit (7 - i % 8) = (b.bytes.1.getD (i / 8) 0).toNat.testBit (7 - i % 8)
    rw [h (i / 8) (by omega)]
  · intro h k hk
    rw [eq_iff_bits]
    intro j hj
    have hbit := h (8 * k + j) (by omega)
    simp only [bit, show (8 * k + j) / 8 = k by omega, show (8 * k + j) % 8 = j by omega] at hbit
    exact hbit

theorem bit_canonicalize_of_le {address : IPAddress} {length : UInt8} (hlength : length.toNat ≤ address.bitWidth)
    (i : Nat) : (address.canonicalize length).bit i = (decide (i < length.toNat) && address.bit i) := by
  rw [canonicalize, if_neg (Nat.not_lt.mpr hlength)]
  show ((address.bytes.1.mapIdx (canonicalByte length.toNat)).getD (i / 8) 0).toNat.testBit (7 - i % 8) = _
  rw [bit, List.getD_eq_getElem?_getD, List.getElem?_mapIdx, List.getD_eq_getElem?_getD]
  cases address.bytes.1[i / 8]? with
  | none => simp
  | some byte =>
    show (canonicalByte length.toNat (i / 8) byte).toNat.testBit (7 - i % 8) = (_ && byte.toNat.testBit (7 - i % 8))
    simp only [canonicalByte]
    split_ifs with hpartial
    · rw [UInt8.toNat_and, Nat.testBit_and, testBit_mask (by omega) (by omega), Bool.and_comm]
      congr 2
      simp only [eq_iff_iff]
      omega
    all_goals first
      | rw [decide_eq_true (by omega), Bool.true_and]
      | rw [decide_eq_false (by omega), Bool.false_and]; exact Nat.zero_testBit _

theorem bit_canonicalize (address : IPAddress) (length : UInt8) {i : Nat} (hi : i < length.toNat) :
    (address.canonicalize length).bit i = address.bit i := by
  by_cases hlength : length.toNat ≤ address.bitWidth
  · rw [bit_canonicalize_of_le hlength, decide_eq_true hi, Bool.true_and]
  · rw [canonicalize, if_pos (Nat.lt_of_not_le hlength)]

/-! ### Containment -/

/-- `IPPrefix::contains` on the fields of a prefix, canonical or not. -/
def prefixContains (address : IPAddress) (length : UInt8) (candidate : IPAddress) : Bool :=
  let fullBytes := length.toNat / 8
  let remainingBits := length.toNat % 8
  let mask := UInt8.ofNat (0xff <<< (8 - remainingBits))
  (length.toNat ≤ address.bitWidth : Bool) && (candidate.family = address.family : Bool) &&
    address.bytes.1.take fullBytes == candidate.bytes.1.take fullBytes &&
    (remainingBits == 0 ||
      address.bytes.1.getD fullBytes 0 &&& mask == candidate.bytes.1.getD fullBytes 0 &&& mask)

theorem prefixContains_iff (address : IPAddress) (length : UInt8) (candidate : IPAddress) :
    address.prefixContains length candidate = true ↔
      length.toNat ≤ address.bitWidth ∧ candidate.family = address.family ∧
      ∀ i < length.toNat, address.bit i = candidate.bit i := by
  have hsplit : (∀ i < length.toNat, address.bit i = candidate.bit i) ↔
      (∀ i < 8 * (length.toNat / 8), address.bit i = candidate.bit i) ∧
      ∀ j < length.toNat % 8, address.bit (8 * (length.toNat / 8) + j) =
        candidate.bit (8 * (length.toNat / 8) + j) := by
    constructor
    · intro h
      exact ⟨fun i hi => h i (by omega), fun j hj => h _ (by omega)⟩
    · rintro ⟨hfull, hpartial⟩ i hi
      by_cases hlt : i < 8 * (length.toNat / 8)
      · exact hfull i hlt
      · have hbit := hpartial (i - 8 * (length.toNat / 8)) (by omega)
        rwa [show 8 * (length.toNat / 8) + (i - 8 * (length.toNat / 8)) = i by omega] at hbit
  have hbyte : ∀ j < length.toNat % 8, ∀ other : IPAddress, other.bit (8 * (length.toNat / 8) + j) =
      (other.bytes.1.getD (length.toNat / 8) 0).toNat.testBit (7 - j) := by
    intro j hj other
    simp only [bit, show (8 * (length.toNat / 8) + j) / 8 = length.toNat / 8 by omega,
      show (8 * (length.toNat / 8) + j) % 8 = j by omega]
  rw [hsplit, ← take_bytes_eq_iff]
  simp only [prefixContains, Bool.and_eq_true, decide_eq_true_eq, beq_iff_eq, Bool.or_eq_true, and_assoc]
  refine and_congr_right fun _ => and_congr_right fun _ => and_congr_right fun _ => ?_
  rw [and_mask_eq_iff (by omega)]
  constructor
  · intro h j hj
    rw [hbyte j hj, hbyte j hj]
    exact (h.resolve_left (by omega)) j hj
  · intro h
    right
    intro j hj
    have hbit := h j hj
    rwa [hbyte j hj, hbyte j hj] at hbit

end IPAddress

/-- A prefix in canonical form. -/
structure IPPrefix where
  address : IPAddress
  length : UInt8
  canonical : address.canonicalize length = address

namespace IPPrefix

/-- The constructor: host bits of the network address are dropped. -/
def of (network : IPAddress) (length : UInt8) : IPPrefix :=
  ⟨network.canonicalize length, length, network.canonicalize_canonicalize length⟩

def valid (p : IPPrefix) : Bool := p.length.toNat ≤ p.address.bitWidth

def contains (p : IPPrefix) (candidate : IPAddress) : Bool :=
  let fullBytes := p.length.toNat / 8
  let remainingBits := p.length.toNat % 8
  let mask := UInt8.ofNat (0xff <<< (8 - remainingBits))
  p.valid && (candidate.family = p.address.family : Bool) &&
    p.address.bytes.1.take fullBytes == candidate.bytes.1.take fullBytes &&
    (remainingBits == 0 ||
      p.address.bytes.1.getD fullBytes 0 &&& mask == candidate.bytes.1.getD fullBytes 0 &&& mask)

theorem contains_iff (p : IPPrefix) (candidate : IPAddress) :
    p.contains candidate = true ↔ p.length.toNat ≤ p.address.bitWidth ∧ candidate.family = p.address.family ∧
      ∀ i < p.length.toNat, p.address.bit i = candidate.bit i :=
  p.address.prefixContains_iff p.length candidate

theorem contains_of_iff (network : IPAddress) (length : UInt8) (candidate : IPAddress) :
    (of network length).contains candidate = true ↔ length.toNat ≤ network.bitWidth ∧
      candidate.family = network.family ∧ ∀ i < length.toNat, network.bit i = candidate.bit i := by
  rw [contains_iff]
  show length.toNat ≤ (network.canonicalize length).bitWidth ∧
    candidate.family = (network.canonicalize length).family ∧
    (∀ i < length.toNat, (network.canonicalize length).bit i = candidate.bit i) ↔ _
  rw [IPAddress.bitWidth_canonicalize, IPAddress.family_canonicalize]
  refine and_congr_right fun _ => and_congr_right fun _ => forall₂_congr fun i hi => ?_
  rw [IPAddress.bit_canonicalize network length hi]

end IPPrefix

namespace Endpoint

def isIpv4 (endpoint : Endpoint) : Bool := endpoint.address.family = .ipv4

def isIpv6 (endpoint : Endpoint) : Bool := endpoint.address.family = .ipv6

def unspecified (endpoint : Endpoint) : Bool :=
  (endpoint.address.bytes.1.take (endpoint.address.bitWidth / 8)).all (· = 0)

end Endpoint

end Aegis
