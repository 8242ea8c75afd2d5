import Aegis.Net.AddressText

/-!
# Prefixes as text

`IPPrefix::parse` and `IPInterfaceAddress::parse` of `net/ip_address.hpp`: an address, a slash and a length in
decimal. The two differ in the bound that stops the loop over the digits, and a prefix loses its host bits.

An accepted text has no blanks, and it has a colon exactly if the address is IPv6. `/` is 47.
-/

namespace Aegis

/-! ## The parsers -/

/-- The loop over the digits of a length. -/
def readLength (bound : Nat) (text : List UInt8) : Option Nat :=
  text.foldlM
    (fun length char =>
      if isDecimalDigit char then
        if bound < length * 10 + (char - 48).toNat then none else some (length * 10 + (char - 48).toNat)
      else none) 0

/-- The address and the digits on the sides of the only slash. -/
def splitSlash (text : List UInt8) : Option (List UInt8 × List UInt8) := do
  let (address, length) ← cutFirst 47 text
  if address = [] ∨ length = [] ∨ length.contains 47 then none else some (address, length)

def IPPrefix.parse (text : List UInt8) : Option IPPrefix := do
  let (addressText, lengthText) ← splitSlash text
  let address ← IPAddress.parse addressText
  let length ← readLength 128 lengthText
  if address.bitWidth < length then none else some (IPPrefix.of address (UInt8.ofNat length))

/-- A host address with the length of the prefix on its link. -/
structure IPInterfaceAddress where
  address : IPAddress
  prefixLength : UInt8
deriving DecidableEq

def IPInterfaceAddress.parse (text : List UInt8) : Option IPInterfaceAddress := do
  let (addressText, lengthText) ← splitSlash text
  let parsedAddress ← IPAddress.parse addressText
  let length ← readLength parsedAddress.bitWidth lengthText
  some ⟨parsedAddress, UInt8.ofNat length⟩

/-! ## The characters of an accepted text -/

def isCidrChar (char : UInt8) : Bool := isHexDigit char || char = 46 || char = 58 || char = 47

theorem isHexDigit_of_isDecimalDigit {char : UInt8} (h : isDecimalDigit char = true) : isHexDigit char = true := by
  rw [isDecimalDigit] at h
  rw [isHexDigit, h, Bool.true_or]

theorem isCidrChar_of_isHexDigit {char : UInt8} (h : isHexDigit char = true) : isCidrChar char = true := by
  rw [isCidrChar, h, Bool.true_or, Bool.true_or, Bool.true_or]

theorem isCidrChar_intercalate {sep : UInt8} (hsep : isCidrChar sep = true) {parts : List (List UInt8)}
    (h : ∀ part ∈ parts, ∀ char ∈ part, isHexDigit char = true) {char : UInt8}
    (hchar : char ∈ [sep].intercalate parts) : isCidrChar char = true := by
  rcases Segments.mem_intercalate hchar with rfl | ⟨part, hpart, hchar⟩
  · exact hsep
  · exact isCidrChar_of_isHexDigit (h part hpart char hchar)

theorem AddressText.chars {text : List UInt8} {address : IPAddress} (h : AddressText text address) :
    (∀ char ∈ text, isCidrChar char = true) ∧ (58 ∈ text ↔ address.family = .ipv6) := by
  cases h with
  | ipv4 octets hcount hoctets =>
    refine ⟨fun char => isCidrChar_intercalate (by decide) fun octet hoctet char hchar =>
      isHexDigit_of_isDecimalDigit ((hoctets octet hoctet).digits char hchar), iff_of_false (fun hmem => ?_) nofun⟩
    rcases Segments.mem_intercalate hmem with heq | ⟨octet, hoctet, hmem⟩
    · cases heq
    · exact (hoctets octet hoctet).not_mem.2 hmem
  | ipv6 groups hcount hgroups =>
    refine ⟨fun char => isCidrChar_intercalate (by decide) fun group hgroup => (hgroups group hgroup).digits,
      iff_of_true (Segments.sep_mem_intercalate (by omega)) rfl⟩
  | compressed left right hcount hleft hright =>
    refine ⟨fun char hchar => ?_, iff_of_true (List.mem_append_right _ List.mem_cons_self) rfl⟩
    rcases List.mem_append.mp hchar with hchar | hchar
    · exact isCidrChar_intercalate (by decide) (fun group hgroup => (hleft group hgroup).digits) hchar
    · rcases List.mem_cons.mp hchar with rfl | hchar
      · decide
      rcases List.mem_cons.mp hchar with rfl | hchar
      · decide
      · exact isCidrChar_intercalate (by decide) (fun group hgroup => (hright group hgroup).digits) hchar

theorem isDecimalDigit_of_readLength {bound length : Nat} {text : List UInt8}
    (h : readLength bound text = some length) : ∀ char ∈ text, isDecimalDigit char = true := by
  have hfold : ∀ (text : List UInt8) (start : Nat),
      text.foldlM (fun length char =>
        if isDecimalDigit char then
          if bound < length * 10 + (char - 48).toNat then none else some (length * 10 + (char - 48).toNat)
        else none) start = some length → ∀ char ∈ text, isDecimalDigit char = true := by
    intro text
    induction text with
    | nil => exact fun _ _ => List.forall_mem_nil _
    | cons char text ih =>
      intro start h
      rw [List.foldlM_cons] at h
      obtain ⟨next, hnext, h⟩ := Option.bind_eq_some_iff.mp h
      rw [List.forall_mem_cons]
      split_ifs at hnext with hdigit
      exact ⟨hdigit, ih next h⟩
  exact hfold text 0 h

theorem splitSlash_chars {text addressText lengthText : List UInt8} {address : IPAddress} {bound length : Nat}
    (hsplit : splitSlash text = some (addressText, lengthText)) (haddress : IPAddress.parse addressText = some address)
    (hlength : readLength bound lengthText = some length) :
    text ≠ [] ∧ (∀ char ∈ text, isCidrChar char = true) ∧ (58 ∈ text ↔ address.family = .ipv6) := by
  obtain ⟨⟨front, back⟩, hcut, h⟩ := Option.bind_eq_some_iff.mp hsplit
  dsimp only at h
  split_ifs at h
  obtain ⟨rfl, rfl⟩ := Prod.mk.inj (Option.some.inj h)
  have hmem : 47 ∈ text := by
    by_contra hmem
    rw [Segments.cutFirst_of_not_mem hmem] at hcut
    cases hcut
  obtain ⟨front', back', hcut', rfl⟩ := Segments.exists_cutFirst hmem
  rw [hcut] at hcut'
  obtain ⟨rfl, rfl⟩ := Prod.mk.inj (Option.some.inj hcut')
  obtain ⟨hchars, hcolon⟩ := (IPAddress.addressText_of_parse haddress).chars
  have hdigits := isDecimalDigit_of_readLength hlength
  refine ⟨List.ne_nil_of_mem hmem, fun char hchar => ?_, ?_⟩
  · rcases List.mem_append.mp hchar with hchar | hchar
    · exact hchars char hchar
    rcases List.mem_cons.mp hchar with rfl | hchar
    · decide
    · exact isCidrChar_of_isHexDigit (isHexDigit_of_isDecimalDigit (hdigits char hchar))
  · rw [← hcolon, List.mem_append, List.mem_cons]
    constructor
    · rintro (hmem | heq | hmem)
      · exact hmem
      · cases heq
      · cases hdigits _ hmem
    · exact Or.inl

theorem IPPrefix.parse_chars {text : List UInt8} {network : IPPrefix} (h : IPPrefix.parse text = some network) :
    text ≠ [] ∧ (∀ char ∈ text, isCidrChar char = true) ∧ (58 ∈ text ↔ network.address.family = .ipv6) := by
  obtain ⟨⟨addressText, lengthText⟩, hsplit, h⟩ := Option.bind_eq_some_iff.mp h
  obtain ⟨address, haddress, h⟩ := Option.bind_eq_some_iff.mp h
  obtain ⟨length, hlength, h⟩ := Option.bind_eq_some_iff.mp h
  split_ifs at h
  rw [← Option.some.inj h, IPPrefix.of, IPAddress.family_canonicalize]
  exact splitSlash_chars hsplit haddress hlength

theorem IPInterfaceAddress.parse_chars {text : List UInt8} (h : (IPInterfaceAddress.parse text).isSome = true) :
    text ≠ [] ∧ ∀ char ∈ text, isCidrChar char = true := by
  obtain ⟨parsed, h⟩ := Option.isSome_iff_exists.mp h
  obtain ⟨⟨addressText, lengthText⟩, hsplit, h⟩ := Option.bind_eq_some_iff.mp h
  obtain ⟨address, haddress, h⟩ := Option.bind_eq_some_iff.mp h
  obtain ⟨length, hlength, -⟩ := Option.bind_eq_some_iff.mp h
  obtain ⟨hne, hchars, -⟩ := splitSlash_chars hsplit haddress hlength
  exact ⟨hne, hchars⟩

end Aegis
