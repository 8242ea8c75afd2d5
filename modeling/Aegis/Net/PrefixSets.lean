import Aegis.Routing.Engine

/-!
# Prefixes as sets of addresses

What a prefix of `net/ip_address.hpp` stands for is the set of addresses it contains. Canonicalisation does not
change the set, and canonical prefixes are different if their sets are: an address that tells two of them apart is
got by flipping one bit. So the comparison of canonical prefixes and lengths in `routing/routing.cpp` compares sets.
-/

namespace Aegis

namespace IPAddress

variable {address other : IPAddress} {length : UInt8}

theorem bitWidth_le (address : IPAddress) : address.bitWidth ≤ 128 := by
  unfold bitWidth
  split <;> decide

/-- The address with bit `i` flipped. -/
def flip (address : IPAddress) (i : Nat) : IPAddress where
  family := address.family
  bytes := ⟨address.bytes.1.modify (i / 8) (· ^^^ UInt8.ofNat (2 ^ (7 - i % 8))), by simp [address.bytes.2]⟩

theorem testBit_xor_pow (byte : UInt8) {j k : Nat} (hj : j < 8) (hk : k < 8) :
    (byte ^^^ UInt8.ofNat (2 ^ (7 - j))).toNat.testBit (7 - k)
      = if k = j then !byte.toNat.testBit (7 - k) else byte.toNat.testBit (7 - k) := by
  have hpow : 2 ^ (7 - j) < 256 := Nat.pow_lt_pow_right (by omega) (show 7 - j < 8 by omega)
  rw [UInt8.toNat_xor, UInt8.toNat_ofNat_of_lt' hpow, Nat.testBit_xor, Nat.testBit_two_pow]
  split_ifs with h
  · rw [decide_eq_true (by omega), Bool.xor_true]
  · rw [decide_eq_false (by omega), Bool.xor_false]

theorem bit_flip {i : Nat} (hi : i < 128) (j : Nat) :
    (address.flip i).bit j = if j = i then !address.bit j else address.bit j := by
  have hlength : i / 8 < address.bytes.1.length := by rw [address.bytes.2]; omega
  have hbyte : (address.flip i).bytes.1.getD (j / 8) 0 =
      if i / 8 = j / 8 then address.bytes.1.getD (j / 8) 0 ^^^ UInt8.ofNat (2 ^ (7 - i % 8))
      else address.bytes.1.getD (j / 8) 0 := by
    show (address.bytes.1.modify (i / 8) _).getD (j / 8) 0 = _
    rw [List.getD_eq_getElem?_getD, List.getElem?_modify, List.getD_eq_getElem?_getD]
    by_cases h : i / 8 = j / 8
    · simp only [← h, List.getElem?_eq_getElem hlength]
      rfl
    · simp [h]
  rw [bit, hbyte, bit]
  by_cases h : i / 8 = j / 8
  · rw [if_pos h, testBit_xor_pow _ (Nat.mod_lt _ (by decide)) (Nat.mod_lt _ (by decide))]
    by_cases hij : j = i
    · rw [if_pos hij, if_pos (by rw [hij])]
    · rw [if_neg hij, if_neg (by omega)]
  · rw [if_neg h, if_neg (by rintro rfl; exact h rfl)]

theorem ext_bits (hfamily : address.family = other.family) (hbits : ∀ i < 128, address.bit i = other.bit i) :
    address = other := by
  have hbytes := (take_bytes_eq_iff address other 16).mpr hbits
  rw [List.take_of_length_le (by rw [address.bytes.2]), List.take_of_length_le (by rw [other.bytes.2])] at hbytes
  obtain ⟨family, bytes⟩ := address
  obtain ⟨family', bytes'⟩ := other
  dsimp only at hfamily hbytes
  rw [hfamily, Subtype.ext hbytes]

theorem prefixContains_canonicalize (address : IPAddress) (length : UInt8) (candidate : IPAddress) :
    (address.canonicalize length).prefixContains length candidate = address.prefixContains length candidate := by
  rw [Bool.eq_iff_iff, prefixContains_iff, prefixContains_iff, bitWidth_canonicalize, family_canonicalize]
  refine and_congr_right fun _ => and_congr_right fun _ => forall₂_congr fun i hi => ?_
  rw [bit_canonicalize address length hi]

theorem prefixContains_self (h : length.toNat ≤ address.bitWidth) : address.prefixContains length address = true :=
  (prefixContains_iff address length address).mpr ⟨h, rfl, fun _ _ => rfl⟩

end IPAddress

namespace IPPrefix

variable {p q : IPPrefix}

theorem exists_contains_not_contains (hq : q.valid = true) (hlt : p.length < q.length)
    (hmem : p.contains q.address = true) : ∃ candidate, p.contains candidate = true ∧ q.contains candidate = false := by
  have hlt' : p.length.toNat < q.length.toNat := UInt8.lt_iff_toNat_lt.mp hlt
  have hwidth := q.address.bitWidth_le
  have hposition : p.length.toNat < 128 := by
    have := of_decide_eq_true hq
    omega
  obtain ⟨hvalid, hfamily, hbits⟩ := (contains_iff p q.address).mp hmem
  -- the bit after the shorter prefix is free in it and fixed in the longer one
  refine ⟨q.address.flip p.length.toNat, ?_, ?_⟩
  · refine (contains_iff p _).mpr ⟨hvalid, hfamily, fun i hi => ?_⟩
    rw [IPAddress.bit_flip hposition, if_neg (by omega)]
    exact hbits i hi
  · rw [Bool.eq_false_iff]
    intro hcontains
    have hbit := ((contains_iff q _).mp hcontains).2.2 p.length.toNat hlt'
    rw [IPAddress.bit_flip hposition, if_pos rfl] at hbit
    exact Bool.not_ne_self _ hbit.symm

theorem eq_of_address_eq (haddress : p.address = q.address) (hlength : p.length = q.length) : p = q := by
  obtain ⟨address, length, hp⟩ := p
  obtain ⟨address', length', hq⟩ := q
  dsimp only at haddress hlength
  subst haddress hlength
  rfl

theorem eq_iff_contains (hp : p.valid = true) (hq : q.valid = true) :
    p = q ↔ ∀ candidate, p.contains candidate = q.contains candidate := by
  refine ⟨fun h candidate => by rw [h], fun h => ?_⟩
  have hself {r : IPPrefix} (hr : r.valid = true) : r.contains r.address = true :=
    IPAddress.prefixContains_self (of_decide_eq_true hr)
  have hlength : p.length = q.length := by
    rcases lt_trichotomy p.length q.length with hlt | heq | hlt
    · obtain ⟨candidate, hin, hout⟩ := exists_contains_not_contains hq hlt ((h _).trans (hself hq))
      exact absurd ((h candidate).symm.trans hin) (by rw [hout]; decide)
    · exact heq
    · obtain ⟨candidate, hin, hout⟩ := exists_contains_not_contains hp hlt ((h _).symm.trans (hself hp))
      exact absurd ((h candidate).trans hin) (by rw [hout]; decide)
  refine eq_of_address_eq ?_ hlength
  obtain ⟨-, hfamily, hbits⟩ := (contains_iff p q.address).mp ((h _).trans (hself hq))
  refine IPAddress.ext_bits hfamily.symm fun i _ => ?_
  by_cases hi : i < p.length.toNat
  · exact hbits i hi
  · rw [← p.canonical, ← q.canonical, IPAddress.bit_canonicalize_of_le (of_decide_eq_true hp),
      IPAddress.bit_canonicalize_of_le (of_decide_eq_true hq), ← hlength, decide_eq_false hi, Bool.false_and,
      Bool.false_and]

end IPPrefix

theorem toNat_toUInt8_of_validPrefixLength {network : IPAddress} {length : UInt32}
    (h : validPrefixLength network length = true) : length.toUInt8.toNat = length.toNat := by
  have hwidth := network.bitWidth_le
  have hlength : length.toNat ≤ network.bitWidth := of_decide_eq_true h
  rw [UInt32.toNat_toUInt8]
  exact Nat.mod_eq_of_lt (by omega)

theorem valid_of_validPrefixLength {network : IPAddress} {length : UInt32}
    (h : validPrefixLength network length = true) : (IPPrefix.of network length.toUInt8).valid = true := by
  have hlength : length.toNat ≤ network.bitWidth := of_decide_eq_true h
  apply decide_eq_true
  show length.toUInt8.toNat ≤ (network.canonicalize length.toUInt8).bitWidth
  rwa [IPAddress.bitWidth_canonicalize, toNat_toUInt8_of_validPrefixLength h]

theorem canonicalPrefix_eq_iff {network network' : IPAddress} {length length' : UInt32}
    (h : validPrefixLength network length = true) (h' : validPrefixLength network' length' = true) :
    (canonicalPrefix network length = canonicalPrefix network' length' ∧ length = length') ↔
      ∀ candidate, (IPPrefix.of network length.toUInt8).contains candidate
        = (IPPrefix.of network' length'.toUInt8).contains candidate := by
  rw [← IPPrefix.eq_iff_contains (valid_of_validPrefixLength h) (valid_of_validPrefixLength h')]
  constructor
  · rintro ⟨haddress, rfl⟩
    exact IPPrefix.eq_of_address_eq haddress rfl
  · intro heq
    refine ⟨congrArg IPPrefix.address heq, ?_⟩
    have hbyte : length.toUInt8.toNat = length'.toUInt8.toNat := congrArg (fun p => p.length.toNat) heq
    rw [toNat_toUInt8_of_validPrefixLength h, toNat_toUInt8_of_validPrefixLength h'] at hbyte
    exact UInt32.toNat_inj.mp hbyte

/-- Prefixes stand for sets of addresses. Canonicalisation is idempotent and keeps the set; the set is that of the
addresses of the family with the same leading bits; canonical prefixes of one family are equal iff their sets
are; and so are the prefixes and lengths that routing compares. -/
theorem prefixes_represent_sets :
    (∀ (address : IPAddress) (length : UInt8), length.toNat ≤ address.bitWidth →
      (address.canonicalize length).canonicalize length = address.canonicalize length ∧
      ∀ candidate, (address.canonicalize length).prefixContains length candidate
          = address.prefixContains length candidate ∧
        (address.prefixContains length candidate = true ↔
          candidate.family = address.family ∧ ∀ i < length.toNat, candidate.bit i = address.bit i)) ∧
    (∀ p q : IPPrefix, p.valid = true → q.valid = true → p.address.family = q.address.family →
      (p = q ↔ ∀ candidate, p.contains candidate = q.contains candidate)) ∧
    (∀ (network network' : IPAddress) (length length' : UInt32), validPrefixLength network length = true →
      validPrefixLength network' length' = true →
      ((canonicalPrefix network length = canonicalPrefix network' length' ∧ length = length') ↔
        ∀ candidate, (IPPrefix.of network length.toUInt8).contains candidate
          = (IPPrefix.of network' length'.toUInt8).contains candidate)) := by
  refine ⟨fun address length hlength => ⟨address.canonicalize_canonicalize length, fun candidate => ⟨?_, ?_⟩⟩,
    fun p q hp hq _ => IPPrefix.eq_iff_contains hp hq, fun _ _ _ _ h h' => canonicalPrefix_eq_iff h h'⟩
  · exact address.prefixContains_canonicalize length candidate
  · rw [IPAddress.prefixContains_iff, and_iff_right hlength]
    refine and_congr_right fun _ => forall₂_congr fun i _ => ?_
    exact eq_comm

end Aegis
