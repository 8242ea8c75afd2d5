import Aegis.Lib.LongestRun
import Aegis.Net.AddressText
import Aegis.Net.Ipv4

/-!
# Endpoints as text

`endpoint_to_string` of `net/endpoint.hpp` and `parse_endpoint` of `main.cpp`. An IPv6 text leaves out the first
one among the longest stretches of at least two zero groups. The texts are in the grammar of `AddressText` and
denote the address, so the parser gives it back without asking the resolver.

Characters are bytes: `[` is 91 and `]` is 93.
-/

namespace Aegis

/-! ## The printer -/

/-- `std::to_string` of an unsigned number. -/
def decimalText (n : Nat) : List UInt8 := (Nat.toDigits 10 n).map fun char => UInt8.ofNat char.toNat

def hexChar (nibble : UInt16) : UInt8 := (asciiBytes "0123456789abcdef").getD nibble.toNat 0

/-- The loop over the nibbles of a group; leading zeros are left out, but not the last nibble. -/
def appendNibbles (group : UInt16) : List UInt16 → Bool → List UInt8 → List UInt8
  | [], _, text => text
  | shift :: shifts, started, text =>
    let nibble := (group >>> shift) &&& 0xF
    if nibble ≠ 0 ∨ started = true ∨ shift = 0 then appendNibbles group shifts true (text ++ [hexChar nibble])
    else appendNibbles group shifts started text

/-- A group, after a colon unless a bracket or a colon stands there. -/
def appendGroup (text : List UInt8) (group : UInt16) : List UInt8 :=
  let text := if text ≠ [] ∧ text.getLast? ≠ some 58 ∧ text.getLast? ≠ some 91 then text ++ [58] else text
  appendNibbles group [12, 8, 4, 0] false text

def groupsOfBytes : List UInt8 → List UInt16
  | high :: low :: rest => ((high.toUInt16 <<< 8) ||| low.toUInt16) :: groupsOfBytes rest
  | _ => []

/-- Where the stretch of zero groups that is left out starts and how long it is; `(8, 0)` if there is none. -/
def bestZeroRun (groups : List UInt16) : Nat × Nat := LongestRun.scan (· = 0) groups 8 0 (8, 0)

/-- The loop over the groups. -/
def appendGroups (groups : List UInt16) (best : Nat × Nat) : Nat → Nat → List UInt8 → List UInt8
  | 0, _, text => text
  | turns + 1, i, text =>
    match groups[i]? with
    | none => text
    | some group =>
      if i = best.1 then appendGroups groups best turns (i + best.2) (text ++ [58, 58])
      else appendGroups groups best turns (i + 1) (appendGroup text group)

/-- The loop over the octets. -/
def octetsText (bytes : List UInt8) : List UInt8 :=
  (List.range 4).foldl
    (fun text i => (if i ≠ 0 then text ++ [46] else text) ++ decimalText (bytes.getD i 0).toNat) []

/-- The address of an endpoint, in brackets if it is IPv6. -/
def hostText (endpoint : Endpoint) : List UInt8 :=
  if endpoint.isIpv4 then octetsText endpoint.address.bytes.1
  else
    let groups := groupsOfBytes endpoint.address.bytes.1
    appendGroups groups (bestZeroRun groups) 8 0 [91] ++ [93]

def endpointToString (endpoint : Endpoint) : List UInt8 :=
  hostText endpoint ++ 58 :: decimalText endpoint.port.toNat

/-! ## The parser -/

/-- `isspace` in the C locale. -/
def isSpace (char : UInt8) : Bool := char = 32 || 9 ≤ char && char ≤ 13

/-- `strtoul` in base ten, with `unsigned long` of 32 bits: blanks, a sign and digits; a larger number becomes the
largest one, and a minus sign negates. Nothing if there is no digit. -/
def strtoul (text : List UInt8) : Option Nat :=
  let text := text.dropWhile isSpace
  let negative := text.head? = some 45
  let text := if text.head? = some 45 ∨ text.head? = some 43 then text.tail else text
  let digits := text.takeWhile isDecimalDigit
  if digits = [] then none
  else if 2 ^ 32 ≤ decimalValue digits then some (2 ^ 32 - 1)
  else if negative then some ((2 ^ 32 - decimalValue digits) % 2 ^ 32)
  else some (decimalValue digits)

/-- The host without its brackets. -/
def unbracket (host : List UInt8) : List UInt8 :=
  if 2 ≤ host.length ∧ host.head? = some 91 ∧ host.getLast? = some 93 then host.tail.dropLast else host

/-- `parse_endpoint`; `resolve` is the resolver, which gives IPv4 addresses in network byte order. -/
def parseEndpoint (resolve : List UInt8 → Option UInt32) (text : List UInt8) : Option Endpoint := do
  let (host, portText) ← cutLast 58 text
  if portText = [] then none
  else
    let host := unbracket host
    let port ← strtoul portText
    if port = 0 ∨ 65535 < port then none
    else
      match IPAddress.parse host with
      | some literal => some ⟨literal, UInt16.ofNat port⟩
      | none => (resolve host).map fun ip => Endpoint.fromIpv4 ip (htons (UInt16.ofNat port))

/-! ## Numbers -/

theorem isDigit_bounds {char : Char} (h : char.isDigit = true) : 48 ≤ char.toNat ∧ char.toNat ≤ 57 := by
  simp [Char.isDigit] at h
  exact ⟨h.1, h.2⟩

theorem isDecimalDigit_decimalText {n : Nat} {char : UInt8} (h : char ∈ decimalText n) :
    isDecimalDigit char = true := by
  obtain ⟨digit, hdigit, rfl⟩ := List.mem_map.mp h
  obtain ⟨hlow, hhigh⟩ := isDigit_bounds (Nat.isDigit_of_mem_toDigits (by decide) (by decide) hdigit)
  have hnat : (UInt8.ofNat digit.toNat).toNat = digit.toNat := UInt8.toNat_ofNat_of_lt' (show _ < 256 by omega)
  simp only [isDecimalDigit, Bool.and_eq_true, decide_eq_true_eq, UInt8.le_iff_toNat_le, hnat]
  exact ⟨hlow, hhigh⟩

theorem decimalValue_decimalText (n : Nat) : decimalValue (decimalText n) = n := by
  have hfold : ∀ (digits : List Char) (value : Nat), (∀ char ∈ digits, char.isDigit = true) →
      (digits.map fun char => UInt8.ofNat char.toNat).foldl (fun value char => value * 10 + (char - 48).toNat) value
        = Nat.ofDigitChars 10 digits value := by
    intro digits
    induction digits with
    | nil => exact fun _ _ => rfl
    | cons char digits ih =>
      intro value h
      rw [List.forall_mem_cons] at h
      obtain ⟨hlow, hhigh⟩ := isDigit_bounds h.1
      have hnat : (UInt8.ofNat char.toNat).toNat = char.toNat := UInt8.toNat_ofNat_of_lt' (show _ < 256 by omega)
      have hdigit : (UInt8.ofNat char.toNat - 48).toNat = char.toNat - '0'.toNat := by
        rw [UInt8.toNat_sub_of_le _ _ (UInt8.le_iff_toNat_le.mpr (by rw [hnat]; exact hlow)), hnat]
        rfl
      rw [List.map_cons, List.foldl_cons, Nat.ofDigitChars_cons, hdigit, Nat.mul_comm value 10]
      exact ih _ h.2
  rw [decimalValue, decimalText, hfold _ _ fun char hchar =>
    Nat.isDigit_of_mem_toDigits (by decide) (by decide) hchar]
  exact Nat.ofDigitChars_toDigits (by decide) (by decide)

theorem decimalText_ne_nil (n : Nat) : decimalText n ≠ [] := by
  intro h
  have hvalue := decimalValue_decimalText n
  rw [h] at hvalue
  rw [← hvalue] at h
  exact absurd h (by decide)

theorem length_decimalText_le {n k : Nat} (hk : 0 < k) (h : n < 10 ^ k) : (decimalText n).length ≤ k := by
  rw [decimalText, List.length_map]
  exact (Nat.length_toDigits_le_iff (by decide) hk).mpr h

theorem decimalOctet_decimalText (octet : UInt8) : DecimalOctet (decimalText octet.toNat) where
  ne_nil := decimalText_ne_nil _
  length := length_decimalText_le (by decide) (octet.toNat_lt.trans (by decide))
  digits _ hchar := isDecimalDigit_decimalText hchar
  value := by
    rw [decimalValue_decimalText]
    exact Nat.le_of_lt_succ octet.toNat_lt

/-! ## Groups -/

theorem hexChar_spec {nibble : UInt16} (h : nibble.toNat < 16) :
    isHexDigit (hexChar nibble) = true ∧ (hexDigit (hexChar nibble)).toNat = nibble.toNat := by
  have hall : ∀ n : Fin 16, isHexDigit (hexChar (UInt16.ofNat n)) = true ∧
      (hexDigit (hexChar (UInt16.ofNat n))).toNat = n := by decide +kernel
  have hnibble := hall ⟨nibble.toNat, h⟩
  rwa [show UInt16.ofNat (⟨nibble.toNat, h⟩ : Fin 16) = nibble from UInt16.ofNat_toNat] at hnibble

def groupText (group : UInt16) : List UInt8 := appendNibbles group [12, 8, 4, 0] false []

theorem appendNibbles_eq (group : UInt16) (shifts : List UInt16) (started : Bool) (text : List UInt8) :
    appendNibbles group shifts started text = text ++ appendNibbles group shifts started [] := by
  induction shifts generalizing started text with
  | nil => rw [appendNibbles, appendNibbles, List.append_nil]
  | cons shift shifts ih =>
    rw [appendNibbles, appendNibbles]
    split_ifs
    · rw [ih true (text ++ _), ih true ([] ++ _), List.nil_append, List.append_assoc]
    · exact ih started text

theorem toNat_nibble (group : UInt16) {shift : UInt16} (h : shift.toNat < 16) :
    ((group >>> shift) &&& 0xF).toNat = group.toNat / 2 ^ shift.toNat % 16 := by
  rw [UInt16.toNat_and, UInt16.toNat_shiftRight, Nat.mod_eq_of_lt h, Nat.shiftRight_eq_div_pow]
  exact Nat.and_two_pow_sub_one_eq_mod _ 4

theorem appendNibbles_started (group : UInt16) (shifts : List UInt16) :
    appendNibbles group shifts true [] = shifts.map fun shift => hexChar ((group >>> shift) &&& 0xF) := by
  induction shifts with
  | nil => rfl
  | cons shift shifts ih =>
    rw [appendNibbles, if_pos (Or.inr (Or.inl rfl)), appendNibbles_eq, ih]
    rfl

theorem appendNibbles_cons {group shift : UInt16} (shifts : List UInt16)
    (h : (group >>> shift) &&& 0xF ≠ 0 ∨ shift = 0) :
    appendNibbles group (shift :: shifts) false []
      = (shift :: shifts).map fun shift => hexChar ((group >>> shift) &&& 0xF) := by
  rw [appendNibbles, if_pos (h.imp_right Or.inr), appendNibbles_eq, appendNibbles_started]
  rfl

theorem appendNibbles_skip {group shift : UInt16} (shifts : List UInt16) (h : (group >>> shift) &&& 0xF = 0)
    (hshift : shift ≠ 0) : appendNibbles group (shift :: shifts) false [] = appendNibbles group shifts false [] := by
  rw [appendNibbles, if_neg]
  rintro (hnibble | hstarted | hzero)
  · exact hnibble h
  · cases hstarted
  · exact hshift hzero

theorem hexValue_map_nibbles (group : UInt16) {shifts : List UInt16} (h : ∀ shift ∈ shifts, shift.toNat < 16) :
    hexValue (shifts.map fun shift => hexChar ((group >>> shift) &&& 0xF))
      = shifts.foldl (fun value shift => value * 16 + group.toNat / 2 ^ shift.toNat % 16) 0 := by
  rw [hexValue, List.foldl_map]
  refine List.foldl_ext _ _ _ fun value shift hshift => ?_
  have hnibble := toNat_nibble group (h shift hshift)
  rw [(hexChar_spec (by rw [hnibble]; omega)).2, hnibble]

theorem exists_shifts (group : UInt16) :
    ∃ shifts ∈ ([[12, 8, 4, 0], [8, 4, 0], [4, 0], [0]] : List (List UInt16)),
      groupText group = shifts.map (fun shift => hexChar ((group >>> shift) &&& 0xF)) ∧
        group.toNat < 16 ^ shifts.length := by
  have hlt := group.toNat_lt
  by_cases h12 : (group >>> 12) &&& 0xF = 0
  swap
  · exact ⟨[12, 8, 4, 0], by decide, appendNibbles_cons _ (Or.inl h12), hlt⟩
  have hzero12 := toNat_nibble group (show (12 : UInt16).toNat < 16 by decide)
  rw [h12] at hzero12
  change 0 = group.toNat / 2 ^ 12 % 16 at hzero12
  rw [groupText, appendNibbles_skip _ h12 (by decide)]
  by_cases h8 : (group >>> 8) &&& 0xF = 0
  swap
  · exact ⟨[8, 4, 0], by decide, appendNibbles_cons _ (Or.inl h8), show group.toNat < 16 ^ 3 by omega⟩
  have hzero8 := toNat_nibble group (show (8 : UInt16).toNat < 16 by decide)
  rw [h8] at hzero8
  change 0 = group.toNat / 2 ^ 8 % 16 at hzero8
  rw [appendNibbles_skip _ h8 (by decide)]
  by_cases h4 : (group >>> 4) &&& 0xF = 0
  swap
  · exact ⟨[4, 0], by decide, appendNibbles_cons _ (Or.inl h4), show group.toNat < 16 ^ 2 by omega⟩
  have hzero4 := toNat_nibble group (show (4 : UInt16).toNat < 16 by decide)
  rw [h4] at hzero4
  change 0 = group.toNat / 2 ^ 4 % 16 at hzero4
  rw [appendNibbles_skip _ h4 (by decide)]
  exact ⟨[0], by decide, appendNibbles_cons _ (Or.inr rfl), show group.toNat < 16 ^ 1 by omega⟩

theorem shifts_bounds {shifts : List UInt16} (h : shifts ∈ [[12, 8, 4, 0], [8, 4, 0], [4, 0], [0]]) :
    shifts ≠ [] ∧ shifts.length ≤ 4 ∧ ∀ shift ∈ shifts, shift.toNat < 16 := by
  simp only [List.mem_cons, List.not_mem_nil, or_false] at h
  rcases h with rfl | rfl | rfl | rfl
  all_goals simp

theorem hexGroup_groupText (group : UInt16) : HexGroup (groupText group) := by
  obtain ⟨shifts, hshifts, htext, -⟩ := exists_shifts group
  obtain ⟨hne, hlength, hlt⟩ := shifts_bounds hshifts
  rw [htext]
  refine ⟨fun hnil => hne (List.map_eq_nil_iff.mp hnil), by rwa [List.length_map], fun char hchar => ?_⟩
  obtain ⟨shift, hshift, rfl⟩ := List.mem_map.mp hchar
  have hnibble := toNat_nibble group (hlt shift hshift)
  exact (hexChar_spec (by rw [hnibble]; omega)).1

theorem hexValue_groupText (group : UInt16) : hexValue (groupText group) = group.toNat := by
  obtain ⟨shifts, hshifts, htext, hlt⟩ := exists_shifts group
  rw [htext, hexValue_map_nibbles group (shifts_bounds hshifts).2.2]
  simp only [List.mem_cons, List.not_mem_nil, or_false] at hshifts
  rcases hshifts with rfl | rfl | rfl | rfl
  all_goals
    simp only [List.length_cons, List.length_nil] at hlt
    simp only [List.foldl_cons, List.foldl_nil, UInt16.reduceToNat]
    omega

/-! ## The text of the groups -/

theorem appendGroup_eq (text : List UInt8) (group : UInt16) :
    appendGroup text group
      = (if text ≠ [] ∧ text.getLast? ≠ some 58 ∧ text.getLast? ≠ some 91 then text ++ [58] else text) ++
        groupText group :=
  appendNibbles_eq group [12, 8, 4, 0] false _

theorem append_groupText_ends (text : List UInt8) (group : UInt16) : text ++ groupText group ≠ [] ∧
    ∀ char, (text ++ groupText group).getLast? = some char → isHexDigit char = true := by
  have hgroup := hexGroup_groupText group
  refine ⟨List.append_ne_nil_of_right_ne_nil _ hgroup.ne_nil, fun char hchar => ?_⟩
  rw [List.getLast?_append_of_ne_nil _ hgroup.ne_nil] at hchar
  exact hgroup.digits char (List.mem_of_getLast? hchar)

theorem foldl_appendGroup_digit {text : List UInt8} (hne : text ≠ [])
    (hlast : ∀ char, text.getLast? = some char → isHexDigit char = true) (groups : List UInt16) :
    groups.foldl appendGroup text = text ++ (groups.map groupText).flatMap (58 :: ·) := by
  induction groups generalizing text with
  | nil => rw [List.foldl_nil, List.map_nil, List.flatMap_nil, List.append_nil]
  | cons group groups ih =>
    have hcolon : text ≠ [] ∧ text.getLast? ≠ some 58 ∧ text.getLast? ≠ some 91 :=
      ⟨hne, fun h => absurd (hlast _ h) (by decide), fun h => absurd (hlast _ h) (by decide)⟩
    obtain ⟨hne', hlast'⟩ := append_groupText_ends (text ++ [58]) group
    rw [List.foldl_cons, appendGroup_eq, if_pos hcolon, ih hne' hlast', List.map_cons, List.flatMap_cons]
    simp only [List.append_assoc, List.cons_append, List.nil_append]

theorem foldl_appendGroup_start {text : List UInt8} (hlast : text.getLast? = some 58 ∨ text.getLast? = some 91)
    (groups : List UInt16) : groups.foldl appendGroup text = text ++ [58].intercalate (groups.map groupText) := by
  cases groups with
  | nil => rw [List.foldl_nil, List.map_nil, List.intercalate_nil, List.append_nil]
  | cons group groups =>
    have hno : ¬ (text ≠ [] ∧ text.getLast? ≠ some 58 ∧ text.getLast? ≠ some 91) :=
      fun h => hlast.elim h.2.1 h.2.2
    obtain ⟨hne', hlast'⟩ := append_groupText_ends text group
    rw [List.foldl_cons, appendGroup_eq, if_neg hno, foldl_appendGroup_digit hne' hlast', List.map_cons,
      Segments.intercalate_cons, List.append_assoc]

variable {groups : List UInt16} {best : Nat × Nat}

theorem appendGroups_until {turns i : Nat} (count : Nat) (hcount : i + count ≤ groups.length)
    (hbest : best.1 < i ∨ i + count ≤ best.1) (text : List UInt8) :
    appendGroups groups best (turns + count) i text
      = appendGroups groups best turns (i + count) (((groups.drop i).take count).foldl appendGroup text) := by
  induction count generalizing i text with
  | zero => rfl
  | succ count ih =>
    have hlt : i < groups.length := by omega
    rw [Nat.add_succ, appendGroups, List.getElem?_eq_getElem hlt]
    dsimp only
    rw [if_neg (by omega), ih (by omega) (by omega), List.drop_eq_getElem_cons hlt, List.take_succ_cons,
      List.foldl_cons, Nat.add_right_comm]
    rfl

theorem appendGroups_end (turns : Nat) {i : Nat} (h : groups.length ≤ i) (text : List UInt8) :
    appendGroups groups best turns i text = text := by
  cases turns with
  | zero => rfl
  | succ turns => rw [appendGroups, List.getElem?_eq_none h]

theorem appendGroups_plain (hlength : groups.length = 8) (hbest : 8 ≤ best.1) (text : List UInt8) :
    appendGroups groups best 8 0 text = groups.foldl appendGroup text := by
  have hall := @appendGroups_until groups best 0 0 8 (by omega) (by omega) text
  rw [Nat.zero_add] at hall
  rw [hall, appendGroups, List.drop_zero, List.take_of_length_le hlength.le]

theorem appendGroups_run {start length : Nat} (hlength : groups.length = 8) (hpositive : 0 < length)
    (hend : start + length ≤ 8) (text : List UInt8) :
    appendGroups groups (start, length) 8 0 text
      = (groups.drop (start + length)).foldl appendGroup ((groups.take start).foldl appendGroup text ++ [58, 58]) := by
  have hlt : start < groups.length := by omega
  have hbefore := @appendGroups_until groups (start, length) (8 - start) 0 start (by omega) (Or.inr (by simp)) text
  rw [show 8 - start + start = 8 by omega, List.drop_zero, Nat.zero_add] at hbefore
  have hstep : ∀ text, appendGroups groups (start, length) (8 - start) start text
      = appendGroups groups (start, length) (7 - start) (start + length) (text ++ [58, 58]) := by
    intro text
    rw [show 8 - start = 7 - start + 1 by omega, appendGroups, List.getElem?_eq_getElem hlt]
    exact if_pos rfl
  have hbehind := @appendGroups_until groups (start, length) (length - 1) (start + length) (8 - (start + length))
    (by omega) (Or.inl (by simp [hpositive]))
  have hrest : (groups.drop (start + length)).take (8 - (start + length)) = groups.drop (start + length) :=
    List.take_of_length_le (by rw [List.length_drop, hlength])
  rw [hbefore, hstep, show 7 - start = length - 1 + (8 - (start + length)) by omega, hbehind,
    appendGroups_end _ (by omega), hrest]

/-! ## The groups of an address -/

theorem length_groupsOfBytes (bytes : FixedBytes 16) : (groupsOfBytes bytes.1).length = 8 := by
  obtain ⟨bytes, hlength⟩ := bytes
  match bytes, hlength with
  | [_, _, _, _, _, _, _, _, _, _, _, _, _, _, _, _], _ => rfl

theorem beBytes_group (high low : UInt8) : beBytes 2 ((high.toUInt16 <<< 8) ||| low.toUInt16).toNat = [high, low] := by
  have hhigh := high.toNat_lt
  have hlow := low.toNat_lt
  have hor := Nat.two_pow_add_eq_or_of_lt (show low.toNat < 2 ^ 8 from hlow) high.toNat
  have hshift : (high.toUInt16 <<< 8).toNat = 2 ^ 8 * high.toNat := by
    rw [UInt16.toNat_shiftLeft, Nat.shiftLeft_eq, UInt8.toNat_toUInt16]
    show high.toNat * 2 ^ 8 % 2 ^ 16 = _
    omega
  rw [UInt16.toNat_or, hshift, UInt8.toNat_toUInt16, ← hor]
  simp only [beBytes, List.cons.injEq, and_true]
  constructor
  · apply UInt8.toNat_inj.mp
    rw [UInt8.toNat_ofNat']
    omega
  · apply UInt8.toNat_inj.mp
    rw [UInt8.toNat_ofNat']
    omega

theorem ipv6OfGroups_groupsOfBytes (bytes : FixedBytes 16) :
    ipv6OfGroups ((groupsOfBytes bytes.1).map UInt16.toNat) = ⟨.ipv6, bytes⟩ := by
  have hbytes : ((groupsOfBytes bytes.1).map UInt16.toNat).flatMap (beBytes 2) = bytes.1 := by
    obtain ⟨bytes, hlength⟩ := bytes
    match bytes, hlength with
    | [_, _, _, _, _, _, _, _, _, _, _, _, _, _, _, _], _ =>
      simp only [groupsOfBytes, List.map_cons, List.map_nil, List.flatMap_cons, List.flatMap_nil, beBytes_group]
      rfl
  rw [ipv6OfGroups, hbytes, FixedBytes.copy_self]

theorem take_replicate_drop {start length : Nat} (h : LongestRun.Run (· = 0) groups start length) :
    groups = groups.take start ++ List.replicate length 0 ++ groups.drop (start + length) := by
  have hzeros : (groups.drop start).take length = List.replicate length 0 := by
    apply List.ext_getElem?
    intro k
    rw [List.getElem?_take, List.getElem?_replicate, List.getElem?_drop]
    split_ifs with hk
    · obtain ⟨group, hgroup, hzero⟩ := h k hk
      rw [hgroup, of_decide_eq_true hzero]
    · rfl
  rw [← hzeros, List.append_assoc, ← List.drop_drop, List.take_append_drop, List.take_append_drop]

theorem end_le_of_run {start length : Nat} (h : LongestRun.Run (· = 0) groups start length) (hpositive : 0 < length) :
    start + length ≤ groups.length := by
  obtain ⟨group, hgroup, -⟩ := h (length - 1) (by omega)
  have hlt := (List.getElem?_eq_some_iff.mp hgroup).1
  omega

/-! ## Hosts -/

variable {endpoint : Endpoint}

/-- The text in the brackets: the groups joined by colons, or those before and behind the first longest stretch
of zeros. -/
inductive GroupsText (groups : List UInt16) : List UInt8 → Prop where
  | plain (hnone : ∀ start, ¬ LongestRun.Run (· = 0) groups start 2) :
    GroupsText groups ([58].intercalate (groups.map groupText))
  | compressed (start length : Nat) (hlongest : LongestRun.FirstLongest (· = 0) groups start length) :
    GroupsText groups ([58].intercalate ((groups.take start).map groupText) ++
      58 :: 58 :: [58].intercalate ((groups.drop (start + length)).map groupText))

theorem appendGroups_bestZeroRun (hlength : groups.length = 8) :
    ∃ body, GroupsText groups body ∧ appendGroups groups (bestZeroRun groups) 8 0 [91] = 91 :: body := by
  have hscan := @LongestRun.scan_spec UInt16 (· = 0) groups 8 0 (8, 0) 8 (LongestRun.Scanned.start 8) (by omega)
  rcases hscan with ⟨hnone, hno⟩ | hlongest
  · refine ⟨_, GroupsText.plain hno, ?_⟩
    rw [bestZeroRun, hnone, appendGroups_plain hlength (by decide), foldl_appendGroup_start (Or.inr rfl)]
    rfl
  · refine ⟨_, GroupsText.compressed _ _ hlongest, ?_⟩
    have hpositive : 0 < (bestZeroRun groups).2 := Nat.lt_of_lt_of_le (by decide) hlongest.two_le
    have hend : (bestZeroRun groups).1 + (bestZeroRun groups).2 ≤ 8 :=
      (end_le_of_run hlongest.run hpositive).trans hlength.le
    have hrun := appendGroups_run hlength hpositive hend [91]
    rw [foldl_appendGroup_start (Or.inl (by simp)), foldl_appendGroup_start (Or.inr rfl)] at hrun
    refine hrun.trans ?_
    simp only [List.append_assoc, List.cons_append, List.nil_append]
    rfl

theorem map_hexValue_groupText (groups : List UInt16) :
    (groups.map groupText).map hexValue = groups.map UInt16.toNat := by
  rw [List.map_map]
  exact List.map_congr_left fun group _ => hexValue_groupText group

theorem hexGroup_of_mem_map {text : List UInt8} (h : text ∈ groups.map groupText) : HexGroup text := by
  obtain ⟨group, -, rfl⟩ := List.mem_map.mp h
  exact hexGroup_groupText group

theorem parse_groupsText {body : List UInt8} (hlength : groups.length = 8) (h : GroupsText groups body) :
    IPAddress.parse body = some (ipv6OfGroups (groups.map UInt16.toNat)) := by
  cases h with
  | plain hnone =>
    rw [IPAddress.parse_ipv6 (by rw [List.length_map, hlength]) fun _ => hexGroup_of_mem_map, map_hexValue_groupText]
  | compressed start length hlongest =>
    have hend := end_le_of_run hlongest.run (Nat.lt_of_lt_of_le (by decide) hlongest.two_le)
    have htwo := hlongest.two_le
    have hcount : 8 - (((groups.take start).map groupText).length +
        ((groups.drop (start + length)).map groupText).length) = length := by
      simp only [List.length_map, List.length_take, List.length_drop]
      omega
    rw [IPAddress.parse_compressed ?_ (fun _ => hexGroup_of_mem_map) fun _ => hexGroup_of_mem_map, hcount,
      map_hexValue_groupText, map_hexValue_groupText]
    · conv_rhs => rw [take_replicate_drop hlongest.run]
      simp only [List.map_append, List.map_replicate]
      rfl
    · simp only [List.length_map, List.length_take, List.length_drop]
      omega

theorem octetsText_eq (bytes : FixedBytes 16) :
    octetsText bytes.1 = [46].intercalate ((bytes.1.take 4).map fun octet => decimalText octet.toNat) := by
  obtain ⟨bytes, hlength⟩ := bytes
  match bytes, hlength with
  | a :: b :: c :: d :: rest, _ =>
    simp only [octetsText, List.take_succ_cons, List.take_zero, List.map_cons, List.map_nil,
      List.intercalate_cons_cons, List.intercalate_singleton]
    simp [List.range_succ]

theorem parse_octetsText {address : IPAddress} (hfamily : address.family = .ipv4) (h : address.unusedZero = true) :
    IPAddress.parse (octetsText address.bytes.1) = some address := by
  have hoctets : ∀ text ∈ (address.bytes.1.take 4).map (fun octet => decimalText octet.toNat), DecimalOctet text := by
    intro text htext
    obtain ⟨octet, -, rfl⟩ := List.mem_map.mp htext
    exact decimalOctet_decimalText octet
  have hcount : ((address.bytes.1.take 4).map fun octet => decimalText octet.toNat).length = 4 := by
    rw [List.length_map, List.length_take, address.bytes.2]
    rfl
  have hvalues : ∀ octets : List UInt8, (octets.map fun octet => decimalText octet.toNat).map
      (fun octet => UInt8.ofNat (decimalValue octet)) = octets := by
    intro octets
    rw [List.map_map]
    refine (List.map_congr_left fun octet _ => ?_).trans (List.map_id octets)
    show UInt8.ofNat (decimalValue (decimalText octet.toNat)) = octet
    rw [decimalValue_decimalText, UInt8.ofNat_toNat]
  rw [octetsText_eq, IPAddress.parse_ipv4 hcount hoctets, hvalues, IPAddress.copy_take_bytes hfamily h, ← hfamily]

theorem exists_host (endpoint : Endpoint) :
    (endpoint.isIpv4 = true ∧ hostText endpoint = octetsText endpoint.address.bytes.1) ∨
      endpoint.isIpv4 = false ∧ ∃ body, GroupsText (groupsOfBytes endpoint.address.bytes.1) body ∧
        hostText endpoint = 91 :: (body ++ [93]) := by
  rw [hostText]
  cases hfamily : endpoint.isIpv4 with
  | true => exact Or.inl ⟨rfl, if_pos rfl⟩
  | false =>
    obtain ⟨body, hbody, htext⟩ := appendGroups_bestZeroRun (length_groupsOfBytes endpoint.address.bytes)
    refine Or.inr ⟨rfl, body, hbody, ?_⟩
    rw [if_neg Bool.false_ne_true]
    dsimp only
    rw [htext, List.cons_append]

theorem parse_hostText (h : endpoint.address.unusedZero = true) :
    IPAddress.parse (unbracket (hostText endpoint)) = some endpoint.address := by
  rcases exists_host endpoint with ⟨hipv4, htext⟩ | ⟨hipv6, body, hbody, htext⟩
  · have hbracket : 91 ∉ octetsText endpoint.address.bytes.1 := by
      rw [octetsText_eq]
      intro hmem
      rcases Segments.mem_intercalate hmem with heq | ⟨text, htext, hmem⟩
      · cases heq
      · obtain ⟨octet, -, rfl⟩ := List.mem_map.mp htext
        cases isDecimalDigit_decimalText hmem
    rw [htext, unbracket, if_neg fun hguard => hbracket (List.mem_of_head? hguard.2.1)]
    exact parse_octetsText (of_decide_eq_true hipv4) h
  · have hguard : 2 ≤ (91 :: (body ++ [93])).length ∧ (91 :: (body ++ [93])).head? = some 91 ∧
        (91 :: (body ++ [93])).getLast? = some 93 := by
      refine ⟨by simp, rfl, ?_⟩
      rw [← List.cons_append]
      exact List.getLast?_concat
    have hfamily : endpoint.address.family = .ipv6 := by
      have hnot := of_decide_eq_false hipv6
      cases hcase : endpoint.address.family with
      | ipv4 => exact absurd hcase hnot
      | ipv6 => rfl
    rw [htext, unbracket, if_pos hguard, List.tail_cons, List.dropLast_concat,
      parse_groupsText (length_groupsOfBytes _) hbody, ipv6OfGroups_groupsOfBytes, ← hfamily]

theorem strtoul_decimalText {n : Nat} (h : n < 2 ^ 32) : strtoul (decimalText n) = some n := by
  have hdigits : ∀ char ∈ decimalText n, isDecimalDigit char = true := fun _ => isDecimalDigit_decimalText
  obtain ⟨first, rest, htext⟩ := List.exists_cons_of_ne_nil (decimalText_ne_nil n)
  have hfirst : isDecimalDigit first = true := hdigits first (by rw [htext]; exact List.mem_cons_self)
  have hsign : ∀ sign, isDecimalDigit sign = false → (decimalText n).head? ≠ some sign := by
    rintro sign hsign heq
    rw [htext, List.head?_cons, Option.some.injEq] at heq
    rw [← heq, hfirst] at hsign
    cases hsign
  have hminus := hsign 45 (by decide)
  have hplus := hsign 43 (by decide)
  have hblank : (decimalText n).dropWhile isSpace = decimalText n := by
    rw [htext]
    apply List.dropWhile_cons_of_neg
    simp only [isDecimalDigit, isSpace, Bool.and_eq_true, Bool.or_eq_true, decide_eq_true_eq,
      UInt8.le_iff_toNat_le, ← UInt8.toNat_inj, UInt8.reduceToNat] at hfirst ⊢
    omega
  unfold strtoul
  rw [hblank]
  dsimp only
  rw [if_neg (not_or.mpr ⟨hminus, hplus⟩), List.takeWhile_eq_self_iff.mpr hdigits, if_neg (decimalText_ne_nil n),
    decimalValue_decimalText, if_neg (Nat.not_le.mpr h), if_neg hminus]

theorem cutLast_endpointToString (endpoint : Endpoint) :
    cutLast 58 (endpointToString endpoint) = some (hostText endpoint, decimalText endpoint.port.toNat) :=
  Segments.cutLast_append_cons (fun hmem => absurd (isDecimalDigit_decimalText hmem) (by decide)) _

theorem parseEndpoint_endpointToString (resolve : List UInt8 → Option UInt32)
    (h : endpoint.address.unusedZero = true) (hport : endpoint.port ≠ 0) :
    parseEndpoint resolve (endpointToString endpoint) = some endpoint := by
  have hlt := endpoint.port.toNat_lt
  have hpositive : endpoint.port.toNat ≠ 0 := fun hzero => hport (UInt16.toNat_inj.mp hzero)
  refine Option.bind_eq_some_iff.mpr ⟨_, cutLast_endpointToString endpoint, ?_⟩
  dsimp only
  rw [if_neg (decimalText_ne_nil _)]
  refine Option.bind_eq_some_iff.mpr ⟨_, strtoul_decimalText (hlt.trans (by decide)), ?_⟩
  rw [if_neg (by omega), parse_hostText h]
  dsimp only
  rw [UInt16.ofNat_toNat]

theorem endpointToString_inj {endpoint' : Endpoint} (h : endpoint.address.unusedZero = true)
    (h' : endpoint'.address.unusedZero = true) (heq : endpointToString endpoint = endpointToString endpoint') :
    endpoint = endpoint' := by
  have hcut := cutLast_endpointToString endpoint
  rw [heq, cutLast_endpointToString] at hcut
  obtain ⟨hhost, hport⟩ := Prod.mk.inj (Option.some.inj hcut)
  have haddress := parse_hostText h
  rw [← hhost, parse_hostText h'] at haddress
  have hnumber := decimalValue_decimalText endpoint.port.toNat
  rw [← hport, decimalValue_decimalText] at hnumber
  cases endpoint
  cases endpoint'
  rw [Endpoint.mk.injEq]
  exact ⟨(Option.some.inj haddress).symm, (UInt16.toNat_inj.mp hnumber).symm⟩

/-- The text of an endpoint with a port is parsed to it whatever the resolver says; an IPv6 address is written in
brackets without the first longest stretch of at least two zero groups; different endpoints have different texts. -/
theorem endpoint_text_round_trip :
    (∀ resolve (endpoint : Endpoint), endpoint.address.unusedZero = true → endpoint.port ≠ 0 →
      parseEndpoint resolve (endpointToString endpoint) = some endpoint) ∧
    (∀ endpoint : Endpoint, endpoint.isIpv4 = false →
      ∃ body, GroupsText (groupsOfBytes endpoint.address.bytes.1) body ∧
        endpointToString endpoint = 91 :: (body ++ [93]) ++ 58 :: decimalText endpoint.port.toNat) ∧
    (∀ endpoint endpoint' : Endpoint, endpoint.address.unusedZero = true → endpoint'.address.unusedZero = true →
      endpointToString endpoint = endpointToString endpoint' → endpoint = endpoint') := by
  refine ⟨fun resolve endpoint => parseEndpoint_endpointToString resolve, fun endpoint hipv6 => ?_,
    fun endpoint endpoint' => endpointToString_inj⟩
  rcases exists_host endpoint with ⟨hipv4, -⟩ | ⟨-, body, hbody, htext⟩
  · rw [hipv4] at hipv6
    cases hipv6
  · exact ⟨body, hbody, by rw [endpointToString, htext]⟩

end Aegis
