import Aegis.Net.Address

/-!
# IPv4 addresses as numbers

The conversions of `net/ip_address.hpp` and `net/endpoint.hpp` between the four bytes of an IPv4 address and the
number they spell. A number has no room for the other twelve bytes of an `IPAddress`; `unusedZero` says that
they are zero, as they are in every address the parsers, the readers of the wire and the constructors make.

`htonl` and `htons` are those of a little-endian host: the bytes of the word in the other order.
-/

namespace Aegis

def htonl (word : UInt32) : UInt32 := UInt32.ofNat (beNat (beBytes 4 word.toNat).reverse)

def htons (word : UInt16) : UInt16 := UInt16.ofNat (beNat (beBytes 2 word.toNat).reverse)

@[simp] theorem htonl_htonl (word : UInt32) : htonl (htonl word) = word := by
  have hlength : (beBytes 4 word.toNat).reverse.length = 4 := by rw [List.length_reverse, length_beBytes]
  obtain ⟨hlt, hbytes⟩ := beBytes_beNat_of_length hlength
  unfold htonl
  rw [UInt32.toNat_ofNat_of_lt' hlt, hbytes, List.reverse_reverse, beNat_beBytes_of_lt word.toNat_lt,
    UInt32.ofNat_toNat]

@[simp] theorem htons_htons (word : UInt16) : htons (htons word) = word := by
  have hlength : (beBytes 2 word.toNat).reverse.length = 2 := by rw [List.length_reverse, length_beBytes]
  obtain ⟨hlt, hbytes⟩ := beBytes_beNat_of_length hlength
  unfold htons
  rw [UInt16.toNat_ofNat_of_lt' hlt, hbytes, List.reverse_reverse, beNat_beBytes_of_lt word.toNat_lt,
    UInt16.ofNat_toNat]

theorem toNat_word (a b c d : UInt8) :
    ((a.toUInt32 <<< 24) ||| (b.toUInt32 <<< 16) ||| (c.toUInt32 <<< 8) ||| d.toUInt32).toNat
      = beNat [a, b, c, d] := by
  have ha := a.toNat_lt
  have hb := b.toNat_lt
  have hc := c.toNat_lt
  have hd := d.toNat_lt
  have h24 : a.toNat <<< 24 % 2 ^ 32 = 2 ^ 24 * a.toNat := by rw [Nat.shiftLeft_eq]; omega
  have h16 : b.toNat <<< 16 % 2 ^ 32 = 2 ^ 16 * b.toNat := by rw [Nat.shiftLeft_eq]; omega
  have h8 : c.toNat <<< 8 % 2 ^ 32 = 2 ^ 8 * c.toNat := by rw [Nat.shiftLeft_eq]; omega
  -- the bytes do not overlap, so an or is a sum
  have hab := Nat.two_pow_add_eq_or_of_lt (show 2 ^ 16 * b.toNat < 2 ^ 24 by omega) a.toNat
  have habc := Nat.two_pow_add_eq_or_of_lt (show 2 ^ 8 * c.toNat < 2 ^ 16 by omega) (2 ^ 8 * a.toNat + b.toNat)
  have habcd := Nat.two_pow_add_eq_or_of_lt (show d.toNat < 2 ^ 8 by omega)
    (2 ^ 16 * a.toNat + 2 ^ 8 * b.toNat + c.toNat)
  show (a.toNat <<< 24 % 2 ^ 32 ||| b.toNat <<< 16 % 2 ^ 32 ||| c.toNat <<< 8 % 2 ^ 32 ||| d.toNat) = _
  have hword : beNat [a, b, c, d] = 2 ^ 24 * a.toNat + 2 ^ 16 * b.toNat + 2 ^ 8 * c.toNat + d.toNat := by
    simp only [beNat, List.foldl_cons, List.foldl_nil]
    omega
  rw [h24, h16, h8, ← hab, hword,
    show 2 ^ 24 * a.toNat + 2 ^ 16 * b.toNat = 2 ^ 16 * (2 ^ 8 * a.toNat + b.toNat) by ring, ← habc,
    show 2 ^ 16 * (2 ^ 8 * a.toNat + b.toNat) + 2 ^ 8 * c.toNat
      = 2 ^ 8 * (2 ^ 16 * a.toNat + 2 ^ 8 * b.toNat + c.toNat) by ring, ← habcd]

namespace IPAddress

/-- The bytes that the family does not use are zero. -/
def unusedZero (address : IPAddress) : Bool := (address.bytes.1.drop (address.bitWidth / 8)).all (· = 0)

variable {address : IPAddress}

theorem fromIpv4_eq (number : UInt32) : fromIpv4 number = ⟨.ipv4, FixedBytes.copy 16 (beBytes 4 number.toNat)⟩ := by
  have hbytes : [(number >>> 24).toUInt8, (number >>> 16).toUInt8, (number >>> 8).toUInt8, number.toUInt8]
      = beBytes 4 number.toNat := by
    simp only [beBytes, List.cons.injEq, and_true]
    refine ⟨?_, ?_, ?_, ?_⟩
    all_goals
      apply UInt8.toNat_inj.mp
      simp [Nat.shiftRight_eq_div_pow]
  rw [fromIpv4, hbytes]

theorem toNat_ipv4Value (h : address.family = .ipv4) : address.ipv4Value.toNat = beNat (address.bytes.1.take 4) := by
  obtain ⟨family, bytes, hlength⟩ := address
  dsimp only at h
  subst h
  match bytes, hlength with
  | a :: b :: c :: d :: rest, _ => exact toNat_word a b c d

@[simp] theorem ipv4Value_fromIpv4 (number : UInt32) : (fromIpv4 number).ipv4Value = number := by
  have hlength := length_beBytes 4 number.toNat
  have htake : (FixedBytes.copy 16 (beBytes 4 number.toNat)).1.take 4 = beBytes 4 number.toNat := by
    conv_lhs => rw [← hlength]
    exact FixedBytes.take_copy (by rw [hlength]; decide)
  apply UInt32.toNat_inj.mp
  rw [fromIpv4_eq, toNat_ipv4Value rfl, htake, beNat_beBytes_of_lt number.toNat_lt]

theorem copy_take_bytes (hfamily : address.family = .ipv4) (hunused : address.unusedZero = true) :
    FixedBytes.copy 16 (address.bytes.1.take 4) = address.bytes := by
  have hlength : (address.bytes.1.take 4).length = 4 := by simp [address.bytes.2]
  have hzero : address.bytes.1.drop 4 = List.replicate 12 0 := by
    rw [unusedZero, show address.bitWidth / 8 = 4 by simp [bitWidth, hfamily], List.all_eq_true] at hunused
    refine List.eq_replicate_iff.mpr ⟨by simp [address.bytes.2], fun byte hbyte => ?_⟩
    exact of_decide_eq_true (hunused byte hbyte)
  apply Subtype.ext
  show (address.bytes.1.take 4 ++ List.replicate 16 0).take 16 = address.bytes.1
  conv_rhs => rw [← List.take_append_drop 4 address.bytes.1, hzero]
  rw [List.take_append, List.take_of_length_le (by omega), hlength, List.take_replicate]
  rfl

theorem fromIpv4_ipv4Value (hfamily : address.family = .ipv4) (hunused : address.unusedZero = true) :
    fromIpv4 address.ipv4Value = address := by
  have hlength : (address.bytes.1.take 4).length = 4 := by simp [address.bytes.2]
  rw [fromIpv4_eq, toNat_ipv4Value hfamily, (beBytes_beNat_of_length hlength).2, copy_take_bytes hfamily hunused,
    ← hfamily]

@[simp] theorem unusedZero_fromIpv4 (number : UInt32) : (fromIpv4 number).unusedZero = true := by
  simp [unusedZero, fromIpv4, bitWidth, FixedBytes.copy]

end IPAddress

namespace Endpoint

/-- The number of an IPv4 address in network byte order, zero for other families. -/
def ipv4Network (endpoint : Endpoint) : UInt32 := if endpoint.isIpv4 then htonl endpoint.address.ipv4Value else 0

/-- The endpoint of an IPv4 address and a port in network byte order. -/
def fromIpv4 (ipv4NetworkOrder : UInt32) (portNetworkOrder : UInt16) : Endpoint :=
  ⟨IPAddress.fromIpv4 (htonl ipv4NetworkOrder), htons portNetworkOrder⟩

@[simp] theorem isIpv4_fromIpv4 (ip : UInt32) (port : UInt16) : (fromIpv4 ip port).isIpv4 = true := rfl

@[simp] theorem ipv4Network_fromIpv4 (ip : UInt32) (port : UInt16) : (fromIpv4 ip port).ipv4Network = ip := by
  rw [ipv4Network, if_pos (isIpv4_fromIpv4 ip port), fromIpv4, IPAddress.ipv4Value_fromIpv4, htonl_htonl]

@[simp] theorem port_fromIpv4 (ip : UInt32) (port : UInt16) : (fromIpv4 ip port).port = htons port := rfl

@[simp] theorem unusedZero_fromIpv4 (ip : UInt32) (port : UInt16) :
    (fromIpv4 ip port).address.unusedZero = true := IPAddress.unusedZero_fromIpv4 _

theorem fromIpv4_ipv4Network {endpoint : Endpoint} (hipv4 : endpoint.isIpv4 = true)
    (hunused : endpoint.address.unusedZero = true) :
    fromIpv4 endpoint.ipv4Network (htons endpoint.port) = endpoint := by
  rw [fromIpv4, ipv4Network, if_pos hipv4, htonl_htonl, htons_htons,
    IPAddress.fromIpv4_ipv4Value (of_decide_eq_true hipv4) hunused]

end Endpoint

end Aegis
