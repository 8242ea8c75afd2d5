import Aegis.Lib.Segments
import Aegis.Net.Address

/-!
# Addresses as text

`IPAddress::parse` of `net/ip_address.hpp`. The scanner goes through the parts of a text between dots or colons
and has separate guards for colons at the end and for a second `::`. `AddressText` is the grammar: four decimal
octets, eight hexadecimal groups, or fewer than eight with one `::` for the zero groups that are left out. The
parser accepts exactly these texts and returns what they denote.

Characters are bytes: `.` is 46, `:` is 58, the digits start at 48, `A` is 65 and `a` is 97.
-/

namespace Aegis

/-! ## The parser -/

def isDecimalDigit (char : UInt8) : Bool := 48 ≤ char && char ≤ 57

def isHexDigit (char : UInt8) : Bool :=
  48 ≤ char && char ≤ 57 || (97 ≤ char && char ≤ 102 || 65 ≤ char && char ≤ 70)

def hexDigit (char : UInt8) : UInt8 :=
  if 48 ≤ char && char ≤ 57 then char - 48
  else if 97 ≤ char && char ≤ 102 then char - 97 + 10
  else char - 65 + 10

/-- The loop over the digits of an octet. -/
def readDecimal (text : List UInt8) : Option Nat :=
  text.foldlM (fun value char => if isDecimalDigit char then some (value * 10 + (char - 48).toNat) else none) 0

def readOctet (text : List UInt8) : Option UInt8 := do
  let value ← readDecimal text
  if 255 < value then none else some (UInt8.ofNat value)

/-- The loop over the digits of a group. -/
def readGroup (text : List UInt8) : Option UInt16 :=
  text.foldlM
    (fun value char => if isHexDigit char then some ((value <<< 4) ||| (hexDigit char).toUInt16) else none) 0

/-- The loop over the parts of a text, each of one to `maxLen` characters, at most `limit` of them. -/
def readParts {β : Type} (maxLen limit : Nat) (read : List UInt8 → Option β) :
    List (List UInt8) → List β → Option (List β)
  | [], values => some values
  | part :: parts, values =>
    if part = [] ∨ maxLen < part.length ∨ values.length = limit then none
    else do
      let value ← read part
      readParts maxLen limit read parts (values ++ [value])

/-- `parse_side`: the groups on one side of a `::`. -/
def parseSide (side : List UInt8) : Option (List UInt16) := readParts 4 8 readGroup (segments 58 side) []

/-- The eight groups of an IPv6 text; `compression` is what stands on the sides of the first `::`. -/
def parseGroups (text : List UInt8) (compression : Option (List UInt8 × List UInt8)) : Option (List UInt16) :=
  match compression with
  | none => do
    let groups ← parseSide text
    if groups.length ≠ 8 then none else some groups
  | some (left, right) => do
    let left ← parseSide left
    let right ← parseSide right
    if 8 ≤ left.length + right.length then none
    else some (left ++ List.replicate (8 - (left.length + right.length)) 0 ++ right)

/-- The bytes of eight groups, the high byte of each first. -/
def groupBytes (groups : List UInt16) : FixedBytes 16 :=
  FixedBytes.copy 16 (groups.flatMap fun group : UInt16 => [(group >>> 8).toUInt8, group.toUInt8])

def IPAddress.parse (text : List UInt8) : Option IPAddress :=
  if text = [] then none
  else if 58 ∉ text then
    if text.getLast? = some 46 then none
    else do
      let octets ← readParts 3 4 readOctet (segments 46 text) []
      if octets.length ≠ 4 then none else some ⟨.ipv4, FixedBytes.copy 16 octets⟩
  else
    let compression := firstDouble 58 text
    if text.getLast? = some 58 ∧ (compression = none ∨ text.drop (text.length - 2) ≠ [58, 58]) then none
    else if compression.any (fun sides => (firstDouble 58 sides.2).isSome) then none
    else (parseGroups text compression).map fun groups => ⟨.ipv6, groupBytes groups⟩

/-! ## The grammar -/

def decimalValue (text : List UInt8) : Nat := text.foldl (fun value char => value * 10 + (char - 48).toNat) 0

def hexValue (text : List UInt8) : Nat := text.foldl (fun value char => value * 16 + (hexDigit char).toNat) 0

/-- One to three decimal digits that spell at most 255. -/
structure DecimalOctet (text : List UInt8) : Prop where
  ne_nil : text ≠ []
  length : text.length ≤ 3
  digits : ∀ char ∈ text, isDecimalDigit char = true
  value : decimalValue text ≤ 255

/-- One to four hexadecimal digits, of either case. -/
structure HexGroup (text : List UInt8) : Prop where
  ne_nil : text ≠ []
  length : text.length ≤ 4
  digits : ∀ char ∈ text, isHexDigit char = true

/-- The address of sixteen-bit groups. -/
def ipv6OfGroups (groups : List Nat) : IPAddress := ⟨.ipv6, FixedBytes.copy 16 (groups.flatMap (beBytes 2))⟩

/-- What the texts of addresses denote. -/
inductive AddressText : List UInt8 → IPAddress → Prop where
  | ipv4 (octets : List (List UInt8)) (hcount : octets.length = 4) (hoctets : ∀ octet ∈ octets, DecimalOctet octet) :
    AddressText ([46].intercalate octets)
      ⟨.ipv4, FixedBytes.copy 16 (octets.map fun octet => UInt8.ofNat (decimalValue octet))⟩
  | ipv6 (groups : List (List UInt8)) (hcount : groups.length = 8) (hgroups : ∀ group ∈ groups, HexGroup group) :
    AddressText ([58].intercalate groups) (ipv6OfGroups (groups.map hexValue))
  | compressed (left right : List (List UInt8)) (hcount : left.length + right.length < 8)
    (hleft : ∀ group ∈ left, HexGroup group) (hright : ∀ group ∈ right, HexGroup group) :
    AddressText ([58].intercalate left ++ 58 :: 58 :: [58].intercalate right)
      (ipv6OfGroups (left.map hexValue ++ List.replicate (8 - (left.length + right.length)) 0 ++ right.map hexValue))

/-! ## Digits -/

theorem foldlM_guard {β : Type} (known : UInt8 → Bool) (step : β → UInt8 → β) (text : List UInt8) (value result : β) :
    text.foldlM (fun value char => if known char then some (step value char) else none) value = some result ↔
      (∀ char ∈ text, known char = true) ∧ result = text.foldl step value := by
  induction text generalizing value with
  | nil => exact ⟨fun h => ⟨List.forall_mem_nil _, (Option.some.inj h).symm⟩, fun h => congrArg some h.2.symm⟩
  | cons char text ih =>
    rw [List.foldlM_cons, List.forall_mem_cons, List.foldl_cons]
    by_cases hknown : known char = true
    · rw [if_pos hknown]
      show text.foldlM _ (step value char) = some result ↔ _
      rw [ih, and_iff_right hknown]
    · rw [if_neg hknown]
      exact iff_of_false nofun fun h => hknown h.1.1

theorem readOctet_eq_some_iff {text : List UInt8} {octet : UInt8} :
    readOctet text = some octet ↔
      ((∀ char ∈ text, isDecimalDigit char = true) ∧ decimalValue text ≤ 255) ∧
        octet = UInt8.ofNat (decimalValue text) := by
  rw [readOctet, Option.bind_eq_bind, Option.bind_eq_some_iff]
  constructor
  · rintro ⟨value, hread, h⟩
    obtain ⟨hdigits, rfl⟩ := (foldlM_guard _ _ _ _ _).mp hread
    split_ifs at h with hlarge
    exact ⟨⟨hdigits, Nat.not_lt.mp hlarge⟩, (Option.some.inj h).symm⟩
  · rintro ⟨⟨hdigits, hle⟩, rfl⟩
    exact ⟨decimalValue text, (foldlM_guard _ _ _ _ _).mpr ⟨hdigits, rfl⟩, if_neg (Nat.not_lt.mpr hle)⟩

theorem hexDigit_lt {char : UInt8} (h : isHexDigit char = true) : (hexDigit char).toNat < 16 :=
  forall_byte (p := fun char => isHexDigit char = true → (hexDigit char).toNat < 16) (by decide +kernel) char h

theorem toNat_appendDigit {value : UInt16} {digit : UInt8} (hvalue : value.toNat < 2 ^ 12) (hdigit : digit.toNat < 16) :
    ((value <<< 4) ||| digit.toUInt16).toNat = value.toNat * 16 + digit.toNat := by
  have hor := Nat.two_pow_add_eq_or_of_lt (show digit.toNat < 2 ^ 4 from hdigit) value.toNat
  have hshift : (value <<< 4).toNat = 2 ^ 4 * value.toNat := by
    rw [UInt16.toNat_shiftLeft, Nat.shiftLeft_eq]
    show value.toNat * 2 ^ 4 % 2 ^ 16 = 2 ^ 4 * value.toNat
    omega
  rw [UInt16.toNat_or, hshift, UInt8.toNat_toUInt16, ← hor]
  omega

theorem toNat_foldl_hex {text : List UInt8} (h : ∀ char ∈ text, isHexDigit char = true) {k : Nat} {value : UInt16}
    (hvalue : value.toNat < 16 ^ k) (hlength : k + text.length ≤ 4) :
    (text.foldl (fun (value : UInt16) char => (value <<< 4) ||| (hexDigit char).toUInt16) value).toNat
      = text.foldl (fun value char => value * 16 + (hexDigit char).toNat) value.toNat := by
  induction text generalizing k value with
  | nil => rfl
  | cons char text ih =>
    rw [List.forall_mem_cons] at h
    rw [List.length_cons] at hlength
    have hdigit := hexDigit_lt h.1
    have hroom : value.toNat < 2 ^ 12 := hvalue.trans_le (by
      rw [show 2 ^ 12 = 16 ^ 3 by norm_num]
      exact Nat.pow_le_pow_right (by decide) (by omega))
    have hstep := toNat_appendDigit hroom hdigit
    rw [List.foldl_cons, List.foldl_cons, ← hstep]
    refine @ih h.2 (k + 1) _ ?_ (by omega)
    rw [hstep, Nat.pow_succ]
    omega

theorem readGroup_eq_some_iff {text : List UInt8} {group : UInt16} (hlength : text.length ≤ 4) :
    readGroup text = some group ↔
      (∀ char ∈ text, isHexDigit char = true) ∧ group = UInt16.ofNat (hexValue text) := by
  rw [readGroup, foldlM_guard]
  refine and_congr_right fun hdigits => ?_
  have hvalue : _ = hexValue text := @toNat_foldl_hex text hdigits 0 0 (by decide) (by omega)
  rw [← hvalue, UInt16.ofNat_toNat]

/-! ## Parts -/

theorem readParts_eq_some_iff {β : Type} {maxLen limit : Nat} {read : List UInt8 → Option β}
    {Accepts : List UInt8 → Prop} {meaning : List UInt8 → β}
    (hread : ∀ part value, part.length ≤ maxLen → (read part = some value ↔ Accepts part ∧ value = meaning part))
    {parts : List (List UInt8)} {values result : List β} (hvalues : values.length ≤ limit) :
    readParts maxLen limit read parts values = some result ↔
      (values.length + parts.length ≤ limit ∧ ∀ part ∈ parts, part ≠ [] ∧ part.length ≤ maxLen ∧ Accepts part) ∧
        result = values ++ parts.map meaning := by
  induction parts generalizing values with
  | nil =>
    rw [readParts, Option.some.injEq, List.map_nil, List.append_nil, eq_comm]
    exact (and_iff_right ⟨hvalues, List.forall_mem_nil _⟩).symm
  | cons part parts ih =>
    rw [readParts, List.forall_mem_cons, List.map_cons, List.length_cons]
    by_cases hguard : part = [] ∨ maxLen < part.length ∨ values.length = limit
    · rw [if_pos hguard]
      refine iff_of_false nofun fun h => ?_
      rcases hguard with hnil | hlong | hfull
      · exact h.1.2.1.1 hnil
      · exact absurd hlong (Nat.not_lt.mpr h.1.2.1.2.1)
      · have hle := h.1.1
        omega
    · rw [if_neg hguard]
      rw [not_or, not_or, Nat.not_lt] at hguard
      obtain ⟨hne, hlength, hroom⟩ := hguard
      cases hvalue : read part with
      | none =>
        refine iff_of_false nofun fun h => ?_
        have hsome := (hread part (meaning part) hlength).mpr ⟨h.1.2.1.2.2, rfl⟩
        rw [hvalue] at hsome
        cases hsome
      | some value =>
        obtain ⟨haccepts, rfl⟩ := (hread part value hlength).mp hvalue
        have hstep : (values ++ [meaning part]).length = values.length + 1 := List.length_append
        show readParts maxLen limit read parts (values ++ [meaning part]) = some result ↔ _
        rw [ih (by omega), hstep, List.append_assoc, List.singleton_append]
        refine and_congr_left fun _ => and_congr (by omega) ?_
        exact ⟨fun h => ⟨⟨hne, hlength, haccepts⟩, h⟩, fun h => h.2⟩

theorem readParts_readOctet_iff {parts : List (List UInt8)} {octets : List UInt8} :
    readParts 3 4 readOctet parts [] = some octets ↔
      (parts.length ≤ 4 ∧ ∀ part ∈ parts, DecimalOctet part) ∧
        octets = parts.map fun octet => UInt8.ofNat (decimalValue octet) := by
  rw [readParts_eq_some_iff (fun _ _ _ => readOctet_eq_some_iff) (Nat.zero_le 4)]
  refine and_congr_left fun _ => and_congr (by rw [List.length_nil, Nat.zero_add]) (forall₂_congr fun part _ => ?_)
  exact ⟨fun h => ⟨h.1, h.2.1, h.2.2.1, h.2.2.2⟩, fun h => ⟨h.ne_nil, h.length, h.digits, h.value⟩⟩

theorem parseSide_iff {side : List UInt8} {groups : List UInt16} :
    parseSide side = some groups ↔
      ((segments 58 side).length ≤ 8 ∧ ∀ part ∈ segments 58 side, HexGroup part) ∧
        groups = (segments 58 side).map fun group => UInt16.ofNat (hexValue group) := by
  rw [parseSide, readParts_eq_some_iff (fun _ _ hlength => readGroup_eq_some_iff hlength) (Nat.zero_le 8)]
  refine and_congr_left fun _ => and_congr (by rw [List.length_nil, Nat.zero_add]) (forall₂_congr fun part _ => ?_)
  exact ⟨fun h => ⟨h.1, h.2.1, h.2.2⟩, fun h => ⟨h.ne_nil, h.length, h.digits⟩⟩

/-! ## Texts -/

theorem DecimalOctet.not_mem {octet : List UInt8} (h : DecimalOctet octet) : 46 ∉ octet ∧ 58 ∉ octet :=
  ⟨fun hdot => absurd (h.digits _ hdot) (by decide), fun hcolon => absurd (h.digits _ hcolon) (by decide)⟩

theorem HexGroup.not_mem {group : List UInt8} (h : HexGroup group) : 58 ∉ group :=
  fun hcolon => absurd (h.digits _ hcolon) (by decide)

theorem groupBytes_map_ofNat (groups : List Nat) :
    groupBytes (groups.map UInt16.ofNat) = FixedBytes.copy 16 (groups.flatMap (beBytes 2)) := by
  have hgroup : ∀ value : Nat,
      [(UInt16.ofNat value >>> 8).toUInt8, (UInt16.ofNat value).toUInt8] = beBytes 2 value := by
    intro value
    simp only [beBytes, List.cons.injEq, and_true]
    constructor
    · apply UInt8.toNat_inj.mp
      simp [Nat.shiftRight_eq_div_pow]
      omega
    · apply UInt8.toNat_inj.mp
      simp
  rw [groupBytes, List.flatMap_map]
  simp only [hgroup]

open Segments

theorem parseSide_intercalate {groups : List (List UInt8)} (hcount : groups.length ≤ 8)
    (hgroups : ∀ group ∈ groups, HexGroup group) :
    parseSide ([58].intercalate groups) = some ((groups.map hexValue).map UInt16.ofNat) := by
  rw [parseSide_iff, segments_intercalate (fun group hgroup => (hgroups group hgroup).ne_nil)
    (fun group hgroup => (hgroups group hgroup).not_mem), List.map_map]
  exact ⟨⟨hcount, hgroups⟩, rfl⟩

theorem exists_groups_of_parseSide {side : List UInt8} {values : List UInt16} (h : parseSide side = some values)
    (hlast : side.getLast? ≠ some 58) :
    ∃ groups, (∀ group ∈ groups, HexGroup group) ∧ side = [58].intercalate groups ∧
      values = (groups.map hexValue).map UInt16.ofNat := by
  obtain ⟨⟨-, hgroups⟩, rfl⟩ := parseSide_iff.mp h
  refine ⟨segments 58 side, hgroups, (intercalate_segments hlast).symm, ?_⟩
  rw [List.map_map]
  rfl

namespace IPAddress

variable {text : List UInt8} {address : IPAddress}

theorem parse_ipv4 {octets : List (List UInt8)} (hcount : octets.length = 4)
    (hoctets : ∀ octet ∈ octets, DecimalOctet octet) :
    parse ([46].intercalate octets)
      = some ⟨.ipv4, FixedBytes.copy 16 (octets.map fun octet => UInt8.ofNat (decimalValue octet))⟩ := by
  have hne : ∀ octet ∈ octets, octet ≠ [] := fun octet hoctet => (hoctets octet hoctet).ne_nil
  have hdot : ∀ octet ∈ octets, 46 ∉ octet := fun octet hoctet => (hoctets octet hoctet).not_mem.1
  have hcolon : 58 ∉ [46].intercalate octets := by
    intro hmem
    rcases mem_intercalate hmem with heq | ⟨octet, hoctet, hmem⟩
    · cases heq
    · exact (hoctets octet hoctet).not_mem.2 hmem
  have hread := readParts_readOctet_iff.mpr ⟨⟨hcount.le, hoctets⟩, rfl⟩
  rw [parse, if_neg (intercalate_ne_nil hne (by rintro rfl; cases hcount)), if_pos hcolon,
    if_neg (getLast?_intercalate_ne hne hdot), segments_intercalate hne hdot]
  refine Option.bind_eq_some_iff.mpr ⟨_, hread, ?_⟩
  exact if_neg (not_not.mpr (by rw [List.length_map, hcount]))

theorem parse_ipv6 {groups : List (List UInt8)} (hcount : groups.length = 8)
    (hgroups : ∀ group ∈ groups, HexGroup group) :
    parse ([58].intercalate groups) = some (ipv6OfGroups (groups.map hexValue)) := by
  have hne : ∀ group ∈ groups, group ≠ [] := fun group hgroup => (hgroups group hgroup).ne_nil
  have hcolon : ∀ group ∈ groups, 58 ∉ group := fun group hgroup => (hgroups group hgroup).not_mem
  have hmem : 58 ∈ [58].intercalate groups := sep_mem_intercalate (by omega)
  rw [parse, if_neg (List.ne_nil_of_mem hmem), if_neg (not_not.mpr hmem), firstDouble_intercalate hne hcolon]
  dsimp only
  rw [if_neg (fun hguard => getLast?_intercalate_ne hne hcolon hguard.1), if_neg (by decide), parseGroups,
    parseSide_intercalate hcount.le hgroups]
  show Option.map _ (if _ then none else some _) = _
  rw [if_neg (not_not.mpr (by rw [List.length_map, List.length_map, hcount])), Option.map_some, ipv6OfGroups,
    ← groupBytes_map_ofNat]

theorem parse_compressed {left right : List (List UInt8)} (hcount : left.length + right.length < 8)
    (hleft : ∀ group ∈ left, HexGroup group) (hright : ∀ group ∈ right, HexGroup group) :
    parse ([58].intercalate left ++ 58 :: 58 :: [58].intercalate right)
      = some (ipv6OfGroups (left.map hexValue ++ List.replicate (8 - (left.length + right.length)) 0 ++
          right.map hexValue)) := by
  have hleftNe : ∀ group ∈ left, group ≠ [] := fun group hgroup => (hleft group hgroup).ne_nil
  have hleftColon : ∀ group ∈ left, 58 ∉ group := fun group hgroup => (hleft group hgroup).not_mem
  have hrightNe : ∀ group ∈ right, group ≠ [] := fun group hgroup => (hright group hgroup).ne_nil
  have hrightColon : ∀ group ∈ right, 58 ∉ group := fun group hgroup => (hright group hgroup).not_mem
  have hmem : 58 ∈ [58].intercalate left ++ 58 :: 58 :: [58].intercalate right :=
    List.mem_append_right _ List.mem_cons_self
  have hdouble := firstDouble_append (firstDouble_intercalate hleftNe hleftColon)
    (getLast?_intercalate_ne hleftNe hleftColon) ([58].intercalate right)
  rw [parse, if_neg (List.ne_nil_of_mem hmem), if_neg (not_not.mpr hmem), hdouble]
  dsimp only
  rw [if_neg ?_, if_neg ?_, parseGroups, parseSide_intercalate (by omega) hleft,
    parseSide_intercalate (by omega) hright]
  · show Option.map _ (if _ then none else some _) = _
    simp only [List.length_map]
    rw [if_neg (Nat.not_le.mpr hcount), Option.map_some, ipv6OfGroups, ← groupBytes_map_ofNat]
    simp only [List.map_append, List.map_replicate]
    rfl
  · -- there is no second pair
    rw [Option.any_some, firstDouble_intercalate hrightNe hrightColon]
    decide
  · -- a colon at the end is the second one of the pair
    rintro ⟨hlast, hnone | hend⟩
    · cases hnone
    · apply hend
      have hnil : [58].intercalate right = [] := by
        by_contra hright
        rw [List.append_cons, List.append_cons, List.getLast?_append_of_ne_nil _ hright] at hlast
        exact getLast?_intercalate_ne hrightNe hrightColon hlast
      rw [hnil, List.length_append]
      exact List.drop_left

theorem parse_of_addressText (h : AddressText text address) : parse text = some address := by
  cases h with
  | ipv4 octets hcount hoctets => exact parse_ipv4 hcount hoctets
  | ipv6 groups hcount hgroups => exact parse_ipv6 hcount hgroups
  | compressed left right hcount hleft hright => exact parse_compressed hcount hleft hright

theorem getLast?_right_ne {left right : List UInt8} {values : List UInt16}
    (hlast : (left ++ 58 :: 58 :: right).getLast? = some 58 →
      (left ++ 58 :: 58 :: right).drop ((left ++ 58 :: 58 :: right).length - 2) = [58, 58])
    (hsecond : firstDouble 58 right = none) (hread : parseSide right = some values) : right.getLast? ≠ some 58 := by
  intro hright
  rcases List.eq_nil_or_concat right with rfl | ⟨front, char, rfl⟩
  · cases hright
  rw [List.concat_eq_append] at *
  rw [List.getLast?_append_of_ne_nil _ (List.cons_ne_nil char []), List.getLast?_singleton,
    Option.some.injEq] at hright
  subst hright
  rcases List.eq_nil_or_concat front with rfl | ⟨front, char, rfl⟩
  · exact (((parseSide_iff.mp hread).1.2) [] (by decide)).ne_nil rfl
  rw [List.concat_eq_append] at *
  have htext : left ++ 58 :: 58 :: (front ++ [char] ++ [58]) = left ++ 58 :: 58 :: front ++ [char, 58] := by simp
  rw [htext, List.getLast?_append_of_ne_nil _ (List.cons_ne_nil char [58]), List.length_append] at hlast
  have hend : [char, 58] = [58, 58] := by
    rw [← hlast rfl]
    exact List.drop_left.symm
  rw [(List.cons.inj hend).1, List.append_assoc] at hsecond
  exact firstDouble_append_ne_none front [] hsecond

theorem addressText_of_parse (h : parse text = some address) : AddressText text address := by
  unfold parse at h
  split_ifs at h with hempty hcolon hdot
  · dsimp only at h
    split_ifs at h with hend hsecond
    obtain ⟨groups, hgroups, rfl⟩ := Option.map_eq_some_iff.mp h
    cases hdouble : firstDouble 58 text with
    | none =>
      rw [hdouble] at hgroups hend
      obtain ⟨values, hside, hvalues⟩ := Option.bind_eq_some_iff.mp hgroups
      split_ifs at hvalues with hcount
      obtain rfl := Option.some.inj hvalues
      obtain ⟨parts, hparts, htext, rfl⟩ :=
        exists_groups_of_parseSide hside fun hlast => hend ⟨hlast, Or.inl rfl⟩
      rw [not_not, List.length_map, List.length_map] at hcount
      rw [htext, groupBytes_map_ofNat]
      exact AddressText.ipv6 parts hcount hparts
    | some sides =>
      obtain ⟨left, right⟩ := sides
      rw [hdouble] at hgroups hend hsecond
      obtain ⟨leftValues, hleft, hgroups⟩ := Option.bind_eq_some_iff.mp hgroups
      obtain ⟨rightValues, hright, hgroups⟩ := Option.bind_eq_some_iff.mp hgroups
      split_ifs at hgroups with hcount
      obtain rfl := Option.some.inj hgroups
      obtain ⟨rfl, hleftLast⟩ := firstDouble_eq_some hdouble
      have hrightLast : right.getLast? ≠ some 58 := by
        refine @getLast?_right_ne left right _ (fun hlast => ?_) ?_ hright
        · by_contra hdrop
          exact hend ⟨hlast, Or.inr hdrop⟩
        · simpa using hsecond
      obtain ⟨leftParts, hleftParts, rfl, rfl⟩ := exists_groups_of_parseSide hleft hleftLast
      obtain ⟨rightParts, hrightParts, rfl, rfl⟩ := exists_groups_of_parseSide hright hrightLast
      have hcompressed := AddressText.compressed leftParts rightParts
        (by simpa using hcount) hleftParts hrightParts
      rw [ipv6OfGroups, ← groupBytes_map_ofNat] at hcompressed
      simpa using hcompressed
  · obtain ⟨octets, hread, h⟩ := Option.bind_eq_some_iff.mp h
    split_ifs at h with hcount
    obtain ⟨⟨-, hoctets⟩, rfl⟩ := readParts_readOctet_iff.mp hread
    rw [not_not, List.length_map] at hcount
    have hdenotes := AddressText.ipv4 (segments 46 text) hcount hoctets
    rw [intercalate_segments hdot] at hdenotes
    rwa [← Option.some.inj h]

end IPAddress

/-- The parser accepts exactly the texts of the grammar, and returns the address that they denote. -/
theorem address_text_grammar :
    ∀ text address, IPAddress.parse text = some address ↔ AddressText text address :=
  fun _ _ => ⟨IPAddress.addressText_of_parse, IPAddress.parse_of_addressText⟩

end Aegis
