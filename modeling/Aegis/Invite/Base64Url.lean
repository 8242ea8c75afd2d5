import Aegis.Wire.Bytes
import Mathlib.Data.List.GetD
import Mathlib.Tactic.IntervalCases

/-!
# Base64url

`base64url_encode` and `base64url_decode` of `invite/invite.cpp`: loops over a 32-bit accumulator that wraps
around, without padding. The encoder is shown to write the groups of RFC 4648, four characters for three bytes,
and the decoder to read them back. The decoder accepts more than that (it drops what is left over at the end);
its callers compare with what the encoder makes of the result.
-/

namespace Aegis

def BASE64URL_CHARS : List UInt8 :=
  asciiBytes "ABCDEFGHIJKLMNOPQRSTUVWXYZabcdefghijklmnopqrstuvwxyz0123456789-_"

/-- The character of six bits. -/
def base64Char (sextet : Nat) : UInt8 := BASE64URL_CHARS.getD sextet 0

/-- The entry of a character in the table `T`, which is filled from the alphabet. -/
def base64Index (char : UInt8) : Option Nat := BASE64URL_CHARS.idxOf? char

/-- The variables of the loops; `valb` counts the bits of `val` that are still to be used. -/
structure Base64State where
  val : UInt32
  valb : Int
  out : List UInt8

namespace Base64State

/-- The bits of `val` from a position on. -/
def shifted (val : UInt32) (position : Int) : UInt32 := val >>> UInt32.ofNat position.toNat

/-- The inner loop of the encoder, for at most `turns` turns. -/
def pushChars : Nat → Base64State → Base64State
  | 0, state => state
  | turns + 1, state =>
    if 0 ≤ state.valb then
      pushChars turns { state with
        valb := state.valb - 6
        out := state.out ++ [base64Char (shifted state.val state.valb &&& 0x3F).toNat] }
    else state

/-- A turn of the encoder. Less than six bits were left over, so two characters are the most it writes. -/
def encodeByte (state : Base64State) (byte : UInt8) : Base64State :=
  pushChars 2 { state with val := (state.val <<< 8) + byte.toUInt32, valb := state.valb + 8 }

/-- The last character, if bits are left over. -/
def finish (state : Base64State) : List UInt8 :=
  if -6 < state.valb then
    state.out ++ [base64Char (shifted (state.val <<< 8) (state.valb + 8) &&& 0x3F).toNat]
  else state.out

/-- A turn of the decoder. -/
def decodeChar (state : Base64State) (char : UInt8) : Option Base64State := do
  let index ← base64Index char
  let val := (state.val <<< 6) + UInt32.ofNat index
  let valb := state.valb + 6
  if 0 ≤ valb then
    some { val, valb := valb - 8, out := state.out ++ [UInt8.ofNat (shifted val valb &&& 0xFF).toNat] }
  else some { val, valb, out := state.out }

/-- Two turns are enough: the inner loop ends because less than six bits are left. -/
theorem valb_pushChars_lt {state : Base64State} (h : state.valb < 12) : (pushChars 2 state).valb < 0 := by
  obtain ⟨val, valb, out⟩ := state
  dsimp only at h
  unfold pushChars pushChars pushChars
  split_ifs with hfirst hsecond
  · show valb - 6 - 6 < 0
    omega
  · exact Int.not_le.mp hsecond
  · exact Int.not_le.mp hfirst

end Base64State

def base64urlEncode (data : List UInt8) : List UInt8 :=
  (data.foldl Base64State.encodeByte ⟨0, -6, []⟩).finish

def base64urlDecode (text : List UInt8) : Option (List UInt8) :=
  (text.foldlM Base64State.decodeChar ⟨0, -8, []⟩).map (·.out)

/-! ## The groups -/

/-- Four characters for three bytes, and two or three for what is left over. -/
def base64Groups : List UInt8 → List UInt8
  | a :: b :: c :: rest =>
    base64Char (a.toNat / 4) :: base64Char (a.toNat % 4 * 16 + b.toNat / 16) ::
      base64Char (b.toNat % 16 * 4 + c.toNat / 64) :: base64Char (c.toNat % 64) :: base64Groups rest
  | [a, b] =>
    [base64Char (a.toNat / 4), base64Char (a.toNat % 4 * 16 + b.toNat / 16), base64Char (b.toNat % 16 * 4)]
  | [a] => [base64Char (a.toNat / 4), base64Char (a.toNat % 4 * 16)]
  | [] => []

namespace Base64State

theorem toNat_shifted {position : Int} (h : position < 32) (val : UInt32) :
    (shifted val position).toNat = val.toNat / 2 ^ position.toNat := by
  have hlt : position.toNat < 2 ^ 32 := by omega
  rw [shifted, UInt32.toNat_shiftRight, UInt32.toNat_ofNat_of_lt' hlt, Nat.mod_eq_of_lt (by omega),
    Nat.shiftRight_eq_div_pow]

theorem toNat_sextet {position : Int} (h : position < 32) (val : UInt32) :
    (shifted val position &&& 0x3F).toNat = val.toNat / 2 ^ position.toNat % 64 := by
  rw [UInt32.toNat_and, toNat_shifted h]
  exact Nat.and_two_pow_sub_one_eq_mod _ 6

theorem toNat_octet {position : Int} (h : position < 32) (val : UInt32) :
    (shifted val position &&& 0xFF).toNat = val.toNat / 2 ^ position.toNat % 256 := by
  rw [UInt32.toNat_and, toNat_shifted h]
  exact Nat.and_two_pow_sub_one_eq_mod _ 8

theorem toNat_appendByte (val : UInt32) (byte : UInt8) :
    ((val <<< 8) + byte.toUInt32).toNat = (val.toNat * 256 + byte.toNat) % 2 ^ 32 := by
  rw [UInt32.toNat_add, UInt32.toNat_shiftLeft, UInt8.toNat_toUInt32, Nat.shiftLeft_eq]
  exact Nat.mod_add_mod _ _ _

theorem toNat_appendSextet (val : UInt32) {index : Nat} (h : index < 64) :
    ((val <<< 6) + UInt32.ofNat index).toNat = (val.toNat * 64 + index) % 2 ^ 32 := by
  rw [UInt32.toNat_add, UInt32.toNat_shiftLeft, UInt32.toNat_ofNat_of_lt' (h.trans (by decide)), Nat.shiftLeft_eq]
  exact Nat.mod_add_mod _ _ _

/-! Between two turns only the last byte, or the last character, still matters of `val`. -/

section Turns

variable {val : UInt32} (out : List UInt8)

theorem sextet_appendByte {position : Nat} (h : position ≤ 6) (val : UInt32) (byte : UInt8) :
    (shifted ((val <<< 8) + byte.toUInt32) position &&& 0x3F).toNat
      = (val.toNat % 256 * 256 + byte.toNat) / 2 ^ position % 64 := by
  rw [toNat_sextet (by omega), Int.toNat_natCast, toNat_appendByte]
  interval_cases position <;> omega

theorem encodeByte_first (a : UInt8) : ∃ val' : UInt32, val'.toNat % 256 = a.toNat ∧
    encodeByte ⟨val, -6, out⟩ a = ⟨val', -4, out ++ [base64Char (a.toNat / 4)]⟩ := by
  have hval := toNat_appendByte val a
  have ha := a.toNat_lt
  refine ⟨(val <<< 8) + a.toUInt32, by omega, ?_⟩
  have hsextet : (val.toNat % 256 * 256 + a.toNat) / 2 ^ 2 % 64 = a.toNat / 4 := by omega
  rw [← hsextet, ← sextet_appendByte (by decide)]
  rfl

theorem encodeByte_second {a : Nat} (ha : val.toNat % 256 = a) (b : UInt8) :
    ∃ val' : UInt32, val'.toNat % 256 = b.toNat ∧
      encodeByte ⟨val, -4, out⟩ b = ⟨val', -2, out ++ [base64Char (a % 4 * 16 + b.toNat / 16)]⟩ := by
  have hval := toNat_appendByte val b
  have hb := b.toNat_lt
  refine ⟨(val <<< 8) + b.toUInt32, by omega, ?_⟩
  have hsextet : (val.toNat % 256 * 256 + b.toNat) / 2 ^ 4 % 64 = a % 4 * 16 + b.toNat / 16 := by omega
  rw [← hsextet, ← sextet_appendByte (by decide)]
  rfl

theorem encodeByte_third {b : Nat} (hb : val.toNat % 256 = b) (c : UInt8) :
    ∃ val' : UInt32, encodeByte ⟨val, -2, out⟩ c
      = ⟨val', -6, out ++ [base64Char (b % 16 * 4 + c.toNat / 64), base64Char (c.toNat % 64)]⟩ := by
  have hc := c.toNat_lt
  refine ⟨(val <<< 8) + c.toUInt32, ?_⟩
  have hhigh : (val.toNat % 256 * 256 + c.toNat) / 2 ^ 6 % 64 = b % 16 * 4 + c.toNat / 64 := by omega
  have hlow : (val.toNat % 256 * 256 + c.toNat) / 2 ^ 0 % 64 = c.toNat % 64 := by omega
  rw [← hhigh, ← hlow, ← sextet_appendByte (by decide), ← sextet_appendByte (by decide), ← List.singleton_append,
    ← List.append_assoc]
  rfl

theorem sextet_shiftLeft {position : Nat} (h : position ≤ 6) (val : UInt32) :
    (shifted (val <<< 8) position &&& 0x3F).toNat = val.toNat % 256 * 256 / 2 ^ position % 64 := by
  have hsextet := sextet_appendByte h val 0
  rwa [show (0 : UInt8).toUInt32 = 0 from rfl, UInt32.add_zero, UInt8.toNat_zero, Nat.add_zero] at hsextet

theorem finish_first {a : Nat} (ha : val.toNat % 256 = a) :
    finish ⟨val, -4, out⟩ = out ++ [base64Char (a % 4 * 16)] := by
  have hsextet : val.toNat % 256 * 256 / 2 ^ 4 % 64 = a % 4 * 16 := by omega
  rw [← hsextet, ← sextet_shiftLeft (by decide)]
  rfl

theorem finish_second {b : Nat} (hb : val.toNat % 256 = b) :
    finish ⟨val, -2, out⟩ = out ++ [base64Char (b % 16 * 4)] := by
  have hsextet : val.toNat % 256 * 256 / 2 ^ 6 % 64 = b % 16 * 4 := by omega
  rw [← hsextet, ← sextet_shiftLeft (by decide)]
  rfl

end Turns

theorem finish_foldl_encodeByte (data : List UInt8) (val : UInt32) (out : List UInt8) :
    (data.foldl encodeByte ⟨val, -6, out⟩).finish = out ++ base64Groups data := by
  fun_induction base64Groups data generalizing val out with
  | case1 a b c rest ih =>
    obtain ⟨first, hfirst, hstep₁⟩ := @encodeByte_first val out a
    obtain ⟨second, hsecond, hstep₂⟩ := encodeByte_second (out ++ [base64Char (a.toNat / 4)]) hfirst b
    obtain ⟨third, hstep₃⟩ := encodeByte_third
      (out ++ [base64Char (a.toNat / 4)] ++ [base64Char (a.toNat % 4 * 16 + b.toNat / 16)]) hsecond c
    rw [List.foldl_cons, List.foldl_cons, List.foldl_cons, hstep₁, hstep₂, hstep₃, ih]
    simp only [List.append_assoc, List.cons_append, List.nil_append]
  | case2 a b =>
    obtain ⟨first, hfirst, hstep₁⟩ := @encodeByte_first val out a
    obtain ⟨second, hsecond, hstep₂⟩ := encodeByte_second (out ++ [base64Char (a.toNat / 4)]) hfirst b
    rw [List.foldl_cons, List.foldl_cons, hstep₁, hstep₂, List.foldl_nil, finish_second _ hsecond]
    simp only [List.append_assoc, List.cons_append, List.nil_append]
  | case3 a =>
    obtain ⟨first, hfirst, hstep₁⟩ := @encodeByte_first val out a
    rw [List.foldl_cons, hstep₁, List.foldl_nil, finish_first _ hfirst]
    simp only [List.append_assoc, List.cons_append, List.nil_append]
  | case4 => exact (List.append_nil out).symm

/-! The decoder reads six bits at a time, and writes a byte after the second, third and fourth character. -/

section DecodeTurns

theorem base64Index_base64Char {sextet : Nat} (h : sextet < 64) : base64Index (base64Char sextet) = some sextet := by
  have hall : ∀ n : Fin 64, base64Index (base64Char n.1) = some n.1 := by decide +kernel
  exact hall ⟨sextet, h⟩

variable {val : UInt32} (out : List UInt8)

theorem decodeChar_first {i : Nat} (hi : i < 64) : ∃ val' : UInt32, val'.toNat % 64 = i ∧
    decodeChar ⟨val, -8, out⟩ (base64Char i) = some ⟨val', -2, out⟩ := by
  have hval := toNat_appendSextet val hi
  refine ⟨(val <<< 6) + UInt32.ofNat i, by omega, ?_⟩
  rw [decodeChar, base64Index_base64Char hi]
  rfl

/-- A later character completes a byte: the bits left over of the character before it and its own first ones. -/
theorem foldlM_decodeChar_next {i j position : Nat} {byte : UInt8} (hi : val.toNat % 64 = i) (hj : j < 64)
    (hposition : position ≤ 4) (hbyte : (i * 64 + j) / 2 ^ position % 256 = byte.toNat) (rest : List UInt8) :
    ∃ val' : UInt32, val'.toNat % 64 = j ∧
      (base64Char j :: rest).foldlM decodeChar ⟨val, (position : Int) - 6, out⟩
        = rest.foldlM decodeChar ⟨val', (position : Int) - 8, out ++ [byte]⟩ := by
  have hval := toNat_appendSextet val hj
  refine ⟨(val <<< 6) + UInt32.ofNat j, by omega, ?_⟩
  have hoctet : UInt8.ofNat (shifted ((val <<< 6) + UInt32.ofNat j) position &&& 0xFF).toNat = byte := by
    rw [toNat_octet (by omega), Int.toNat_natCast]
    apply UInt8.toNat_inj.mp
    rw [UInt8.toNat_ofNat', ← hbyte]
    interval_cases position <;> omega
  have hvalb : (position : Int) - 6 + 6 = position := by omega
  simp only [List.foldlM_cons, decodeChar, base64Index_base64Char hj, Option.bind_eq_bind, Option.bind_some, hvalb,
    if_pos (Int.natCast_nonneg position), hoctet]

theorem foldlM_decodeChar_two (a : UInt8) {extra : Nat} (hextra : extra < 16) (rest : List UInt8) :
    ∃ val' : UInt32, val'.toNat % 64 = a.toNat % 4 * 16 + extra ∧
      (base64Char (a.toNat / 4) :: base64Char (a.toNat % 4 * 16 + extra) :: rest).foldlM decodeChar ⟨val, -8, out⟩
        = rest.foldlM decodeChar ⟨val', -4, out ++ [a]⟩ := by
  have ha := a.toNat_lt
  obtain ⟨first, hfirst, hstep₁⟩ := @decodeChar_first val out (a.toNat / 4) (by omega)
  rw [List.foldlM_cons, hstep₁]
  exact @foldlM_decodeChar_next first out _ _ 4 a hfirst (by omega) (by decide) (by omega) rest

theorem foldlM_decodeChar_third (b : UInt8) {i extra : Nat} (hi : val.toNat % 64 = i) (hb : i % 16 = b.toNat / 16)
    (hextra : extra < 4) (rest : List UInt8) :
    ∃ val' : UInt32, val'.toNat % 64 = b.toNat % 16 * 4 + extra ∧
      (base64Char (b.toNat % 16 * 4 + extra) :: rest).foldlM decodeChar ⟨val, -4, out⟩
        = rest.foldlM decodeChar ⟨val', -6, out ++ [b]⟩ :=
  @foldlM_decodeChar_next val out i _ 2 b hi (by omega) (by decide) (by omega) rest

theorem foldlM_decodeChar_fourth (c : UInt8) {i : Nat} (hi : val.toNat % 64 = i) (hc : i % 4 = c.toNat / 64)
    (rest : List UInt8) :
    ∃ val' : UInt32, val'.toNat % 64 = c.toNat % 64 ∧
      (base64Char (c.toNat % 64) :: rest).foldlM decodeChar ⟨val, -6, out⟩
        = rest.foldlM decodeChar ⟨val', -8, out ++ [c]⟩ :=
  @foldlM_decodeChar_next val out i _ 0 c hi (by omega) (by decide) (by omega) rest

end DecodeTurns

theorem foldlM_decodeChar_groups (data : List UInt8) (val : UInt32) (out : List UInt8) :
    ((base64Groups data).foldlM decodeChar ⟨val, -8, out⟩).map (·.out) = some (out ++ data) := by
  fun_induction base64Groups data generalizing val out with
  | case1 a b c rest ih =>
    have hb := b.toNat_lt
    have hc := c.toNat_lt
    obtain ⟨two, htwo, hfirst⟩ := @foldlM_decodeChar_two val out a (b.toNat / 16) (by omega)
      (base64Char (b.toNat % 16 * 4 + c.toNat / 64) :: base64Char (c.toNat % 64) :: base64Groups rest)
    obtain ⟨three, hthree, hsecond⟩ := @foldlM_decodeChar_third two (out ++ [a]) b _ (c.toNat / 64) htwo (by omega)
      (by omega) (base64Char (c.toNat % 64) :: base64Groups rest)
    obtain ⟨four, -, hthird⟩ := @foldlM_decodeChar_fourth three (out ++ [a] ++ [b]) c _ hthree (by omega)
      (base64Groups rest)
    rw [hfirst, hsecond, hthird, ih]
    simp only [List.append_assoc, List.cons_append, List.nil_append]
  | case2 a b =>
    have hb := b.toNat_lt
    obtain ⟨two, htwo, hfirst⟩ := @foldlM_decodeChar_two val out a (b.toNat / 16) (by omega)
      [base64Char (b.toNat % 16 * 4)]
    obtain ⟨three, -, hsecond⟩ := @foldlM_decodeChar_third two (out ++ [a]) b _ 0 htwo (by omega) (by omega) []
    rw [Nat.add_zero] at hsecond
    rw [hfirst, hsecond]
    show some (out ++ [a] ++ [b]) = some (out ++ [a, b])
    rw [List.append_assoc]
    rfl
  | case3 a =>
    obtain ⟨two, -, hfirst⟩ := @foldlM_decodeChar_two val out a 0 (by omega) []
    rw [Nat.add_zero] at hfirst
    rw [hfirst]
    rfl
  | case4 =>
    rw [List.append_nil]
    rfl

end Base64State

open Base64State

theorem base64urlEncode_eq (data : List UInt8) : base64urlEncode data = base64Groups data :=
  finish_foldl_encodeByte data 0 []

theorem base64urlDecode_encode (data : List UInt8) : base64urlDecode (base64urlEncode data) = some data := by
  rw [base64urlEncode_eq]
  exact foldlM_decodeChar_groups data 0 []

theorem length_base64urlEncode_le (data : List UInt8) : (base64urlEncode data).length ≤ (data.length + 2) / 3 * 4 := by
  rw [base64urlEncode_eq]
  fun_induction base64Groups data with
  | case1 a b c rest ih =>
    simp only [List.length_cons]
    omega
  | case2 a b => simp only [List.length_cons, List.length_nil]; omega
  | case3 a => simp only [List.length_cons, List.length_nil]; omega
  | case4 => exact Nat.zero_le _

theorem base64Char_mem (sextet : Nat) (h : sextet < 64) : base64Char sextet ∈ BASE64URL_CHARS := by
  have hlength : BASE64URL_CHARS.length = 64 := by decide +kernel
  rw [base64Char, List.getD_eq_getElem _ _ (by rw [hlength]; exact h)]
  exact List.getElem_mem _

theorem mem_base64urlEncode {data : List UInt8} {char : UInt8} (h : char ∈ base64urlEncode data) :
    char ∈ BASE64URL_CHARS := by
  rw [base64urlEncode_eq] at h
  fun_induction base64Groups data with
  | case1 a b c rest ih =>
    have ha := a.toNat_lt
    have hb := b.toNat_lt
    have hc := c.toNat_lt
    simp only [List.mem_cons] at h
    rcases h with rfl | rfl | rfl | rfl | h
    · exact base64Char_mem _ (by omega)
    · exact base64Char_mem _ (by omega)
    · exact base64Char_mem _ (by omega)
    · exact base64Char_mem _ (by omega)
    · exact ih h
  | case2 a b =>
    have ha := a.toNat_lt
    have hb := b.toNat_lt
    simp only [List.mem_cons, List.not_mem_nil, or_false] at h
    rcases h with rfl | rfl | rfl
    all_goals exact base64Char_mem _ (by omega)
  | case3 a =>
    have ha := a.toNat_lt
    simp only [List.mem_cons, List.not_mem_nil, or_false] at h
    rcases h with rfl | rfl
    all_goals exact base64Char_mem _ (by omega)
  | case4 => exact absurd h List.not_mem_nil

end Aegis
