import Aegis.Lib.BigEndian
import Mathlib.Data.List.Lex
import Mathlib.Order.Lattice

/-!
# Bytes on the wire

`FixedBytes n` is `std::array<uint8_t, n>` with its lexicographic order; node ids, keys and digests are
such arrays. `WireReader` is the bounded cursor of `protocol/wire.hpp`: it holds the unread bytes, every
read either consumes exactly its field or fails, and integers are in network byte order. What a writer
emits is `beBytes`: every buffer is sized to the fields written into it, so a write never fails.
-/

namespace Aegis

instance instLinearOrderUInt8 : LinearOrder UInt8 where
  le_refl := UInt8.le_refl
  le_trans _ _ _ := UInt8.le_trans
  le_antisymm _ _ := UInt8.le_antisymm
  le_total := UInt8.le_total
  lt_iff_le_not_ge a b := by
    rw [UInt8.lt_iff_toNat_lt, UInt8.le_iff_toNat_le, UInt8.le_iff_toNat_le]
    omega
  toDecidableLE := inferInstance
  toDecidableEq := inferInstance
  toDecidableLT := inferInstance

instance instLinearOrderUInt32 : LinearOrder UInt32 where
  le_refl := UInt32.le_refl
  le_trans _ _ _ := UInt32.le_trans
  le_antisymm _ _ := UInt32.le_antisymm
  le_total := UInt32.le_total
  lt_iff_le_not_ge a b := by
    rw [UInt32.lt_iff_toNat_lt, UInt32.le_iff_toNat_le, UInt32.le_iff_toNat_le]
    omega
  toDecidableLE := inferInstance
  toDecidableEq := inferInstance
  toDecidableLT := inferInstance

instance instLinearOrderUInt64 : LinearOrder UInt64 where
  le_refl := UInt64.le_refl
  le_trans _ _ _ := UInt64.le_trans
  le_antisymm _ _ := UInt64.le_antisymm
  le_total := UInt64.le_total
  lt_iff_le_not_ge a b := by
    rw [UInt64.lt_iff_toNat_lt, UInt64.le_iff_toNat_le, UInt64.le_iff_toNat_le]
    omega
  toDecidableLE := inferInstance
  toDecidableEq := inferInstance
  toDecidableLT := inferInstance

/-- Byte arrays of a fixed length, ordered lexicographically. -/
abbrev FixedBytes (n : Nat) := { bytes : List UInt8 // bytes.length = n }

/-- The zero-initialised array. -/
def FixedBytes.zero (n : Nat) : FixedBytes n := ⟨List.replicate n 0, List.length_replicate⟩

/-- Copy a span into a zero-initialised array. -/
def FixedBytes.copy (n : Nat) (bytes : List UInt8) : FixedBytes n :=
  ⟨(bytes ++ List.replicate n 0).take n, by simp⟩

theorem FixedBytes.copy_self {n : Nat} (value : FixedBytes n) : FixedBytes.copy n value.1 = value := by
  apply Subtype.ext
  show (value.1 ++ List.replicate n 0).take n = value.1
  rw [List.take_append_of_le_length (by rw [value.2]), List.take_of_length_le (by rw [value.2])]

theorem FixedBytes.take_copy {n : Nat} {bytes : List UInt8} (h : bytes.length ≤ n) :
    (FixedBytes.copy n bytes).1.take bytes.length = bytes := by
  show ((bytes ++ List.replicate n 0).take n).take bytes.length = bytes
  rw [List.take_take, Nat.min_eq_left h, List.take_left]

theorem FixedBytes.copy_inj {n : Nat} {bytes bytes' : List UInt8} (hlength : bytes.length = bytes'.length)
    (hle : bytes.length ≤ n) : FixedBytes.copy n bytes = FixedBytes.copy n bytes' ↔ bytes = bytes' := by
  refine ⟨fun h => ?_, fun h => by rw [h]⟩
  rw [← FixedBytes.take_copy hle, h, hlength, FixedBytes.take_copy (hlength ▸ hle)]

instance (n : Nat) : Inhabited (FixedBytes n) := ⟨FixedBytes.zero n⟩

abbrev NodeId := FixedBytes 32
abbrev NetworkId := FixedBytes 32
abbrev X25519Key := FixedBytes 32
abbrev X25519PrivateKey := FixedBytes 32
abbrev CryptoHash := FixedBytes 32
abbrev ChaCha20Poly1305Key := FixedBytes 32
abbrev ChaCha20Poly1305Nonce := FixedBytes 12

/-- Clock readings and durations, in the clock's ticks. -/
abbrev Time := Int

/-- What one use of the random source yields: nothing, or as many bytes as asked for. -/
abbrev Entropy := Option (Nat → UInt8)

/-- `RandomSource::fill` of a span of `count` bytes. -/
def Entropy.fill (entropy : Entropy) (count : Nat) : Option (List UInt8) :=
  entropy.map fun byte => (List.range count).map byte

theorem Entropy.length_fill {entropy : Entropy} {count : Nat} {bytes : List UInt8}
    (h : entropy.fill count = some bytes) : bytes.length = count := by
  obtain ⟨byte, -, rfl⟩ := Option.map_eq_some_iff.mp h
  simp

theorem forall_byte {p : UInt8 → Prop} (h : ∀ n : Fin 256, p (UInt8.ofNat n)) (byte : UInt8) : p byte := by
  have hbyte := h ⟨byte.toNat, byte.toNat_lt⟩
  rwa [show UInt8.ofNat (⟨byte.toNat, byte.toNat_lt⟩ : Fin 256) = byte from UInt8.ofNat_toNat] at hbyte

/-- The characters of an ASCII string as bytes. -/
def asciiBytes (text : String) : List UInt8 := text.toList.map fun c => UInt8.ofNat c.toNat

/-- The unread bytes of a message. -/
structure WireReader where
  rest : List UInt8

namespace WireReader

def remaining (reader : WireReader) : Nat := reader.rest.length

def finished (reader : WireReader) : Bool := reader.rest.isEmpty

def readBytes (reader : WireReader) (count : Nat) : Option (List UInt8 × WireReader) :=
  if reader.remaining < count then none
  else some (reader.rest.take count, ⟨reader.rest.drop count⟩)

def readU8 (reader : WireReader) : Option (UInt8 × WireReader) :=
  (reader.readBytes 1).map fun (bytes, reader) => (UInt8.ofNat (beNat bytes), reader)

def readU16 (reader : WireReader) : Option (UInt16 × WireReader) :=
  (reader.readBytes 2).map fun (bytes, reader) => (UInt16.ofNat (beNat bytes), reader)

def readU32 (reader : WireReader) : Option (UInt32 × WireReader) :=
  (reader.readBytes 4).map fun (bytes, reader) => (UInt32.ofNat (beNat bytes), reader)

def readU64 (reader : WireReader) : Option (UInt64 × WireReader) :=
  (reader.readBytes 8).map fun (bytes, reader) => (UInt64.ofNat (beNat bytes), reader)

/-- Read an array of `n` bytes. -/
def readArray (reader : WireReader) (n : Nat) : Option (FixedBytes n × WireReader) :=
  if h : reader.rest.length < n then none
  else some (⟨reader.rest.take n, List.length_take_of_le (by omega)⟩, ⟨reader.rest.drop n⟩)

/-- Read `count` fields of one kind. -/
def readMany {α : Type} (read : WireReader → Option (α × WireReader)) :
    Nat → WireReader → Option (List α × WireReader)
  | 0, reader => some ([], reader)
  | count + 1, reader => do
    let (value, reader) ← read reader
    let (values, reader) ← readMany read count reader
    some (value :: values, reader)

theorem readBytes_append {count : Nat} {front rest : List UInt8} (h : front.length = count) :
    (WireReader.mk (front ++ rest)).readBytes count = some (front, ⟨rest⟩) := by
  subst h
  simp [readBytes, remaining]

@[simp] theorem readU8_cons (value : UInt8) (rest : List UInt8) :
    (WireReader.mk (value :: rest)).readU8 = some (value, ⟨rest⟩) := by
  have hread : (WireReader.mk (value :: rest)).readBytes 1 = some ([value], ⟨rest⟩) :=
    @readBytes_append 1 [value] rest rfl
  rw [readU8, hread]
  simp [beNat]

@[simp] theorem readU16_beBytes (value : UInt16) (rest : List UInt8) :
    (WireReader.mk (beBytes 2 value.toNat ++ rest)).readU16 = some (value, ⟨rest⟩) := by
  rw [readU16, readBytes_append (length_beBytes 2 _)]
  simp [beNat_beBytes_of_lt (n := 2) value.toNat_lt]

theorem readU16_beBytes_of_lt {value : Nat} (h : value < 65536) (rest : List UInt8) :
    (WireReader.mk (beBytes 2 value ++ rest)).readU16 = some (UInt16.ofNat value, ⟨rest⟩) := by
  have hread := readU16_beBytes (UInt16.ofNat value) rest
  rwa [UInt16.toNat_ofNat_of_lt' h] at hread

@[simp] theorem readU32_beBytes (value : UInt32) (rest : List UInt8) :
    (WireReader.mk (beBytes 4 value.toNat ++ rest)).readU32 = some (value, ⟨rest⟩) := by
  rw [readU32, readBytes_append (length_beBytes 4 _)]
  simp [beNat_beBytes_of_lt (n := 4) value.toNat_lt]

theorem readU32_beBytes_of_lt {value : Nat} (h : value < 4294967296) (rest : List UInt8) :
    (WireReader.mk (beBytes 4 value ++ rest)).readU32 = some (UInt32.ofNat value, ⟨rest⟩) := by
  have hread := readU32_beBytes (UInt32.ofNat value) rest
  rwa [UInt32.toNat_ofNat_of_lt' h] at hread

@[simp] theorem readU64_beBytes (value : UInt64) (rest : List UInt8) :
    (WireReader.mk (beBytes 8 value.toNat ++ rest)).readU64 = some (value, ⟨rest⟩) := by
  rw [readU64, readBytes_append (length_beBytes 8 _)]
  simp [beNat_beBytes_of_lt (n := 8) value.toNat_lt]

theorem readU64_beBytes_of_lt {value : Nat} (h : value < 18446744073709551616) (rest : List UInt8) :
    (WireReader.mk (beBytes 8 value ++ rest)).readU64 = some (UInt64.ofNat value, ⟨rest⟩) := by
  have hread := readU64_beBytes (UInt64.ofNat value) rest
  rwa [UInt64.toNat_ofNat_of_lt' h] at hread

@[simp] theorem readArray_append {n : Nat} (value : FixedBytes n) (rest : List UInt8) :
    (WireReader.mk (value.1 ++ rest)).readArray n = some (value, ⟨rest⟩) := by
  obtain ⟨bytes, hlen⟩ := value
  subst hlen
  simp [readArray]

theorem readMany_flatMap {α β : Type} {read : WireReader → Option (β × WireReader)} {write : α → List UInt8}
    {f : α → β} {values : List α}
    (h : ∀ value ∈ values, ∀ rest, read ⟨write value ++ rest⟩ = some (f value, ⟨rest⟩)) (rest : List UInt8) :
    readMany read values.length ⟨values.flatMap write ++ rest⟩ = some (values.map f, ⟨rest⟩) := by
  induction values with
  | nil => rfl
  | cons value values ih =>
    have hrest := ih fun value' hvalue' => h value' (List.mem_cons_of_mem _ hvalue')
    simp [readMany, h value List.mem_cons_self, hrest]

variable {reader reader' : WireReader}

/-! What was read is what stood in front. -/

theorem readBytes_eq_some {count : Nat} {bytes : List UInt8} (h : reader.readBytes count = some (bytes, reader')) :
    bytes.length = count ∧ reader.rest = bytes ++ reader'.rest := by
  unfold readBytes at h
  split_ifs at h with hshort
  obtain ⟨rfl, rfl⟩ := Prod.mk.inj (Option.some.inj h)
  exact ⟨List.length_take_of_le (not_lt.mp hshort), (List.take_append_drop _ _).symm⟩

theorem rest_of_readInteger {count : Nat} {α : Type} {ofNat : Nat → α} {toNat : α → Nat}
    (hfits : ∀ n < 256 ^ count, toNat (ofNat n) = n) {value : α}
    (h : ((reader.readBytes count).map fun (bytes, reader) => (ofNat (beNat bytes), reader)) = some (value, reader')) :
    reader.rest = beBytes count (toNat value) ++ reader'.rest := by
  obtain ⟨⟨bytes, next⟩, hread, heq⟩ := Option.map_eq_some_iff.mp h
  obtain ⟨rfl, rfl⟩ := Prod.mk.inj heq
  obtain ⟨rfl, hrest⟩ := readBytes_eq_some hread
  rw [hrest, hfits _ (beNat_lt bytes), beBytes_beNat]

theorem rest_of_readU8 {value : UInt8} (h : reader.readU8 = some (value, reader')) :
    reader.rest = value :: reader'.rest := by
  rw [rest_of_readInteger (fun _ => UInt8.toNat_ofNat_of_lt') h, beBytes, beBytes, pow_zero, Nat.div_one,
    UInt8.ofNat_toNat]
  rfl

theorem rest_of_readU16 {value : UInt16} (h : reader.readU16 = some (value, reader')) :
    reader.rest = beBytes 2 value.toNat ++ reader'.rest :=
  rest_of_readInteger (fun _ => UInt16.toNat_ofNat_of_lt') h

theorem rest_of_readU32 {value : UInt32} (h : reader.readU32 = some (value, reader')) :
    reader.rest = beBytes 4 value.toNat ++ reader'.rest :=
  rest_of_readInteger (fun _ => UInt32.toNat_ofNat_of_lt') h

theorem rest_of_readU64 {value : UInt64} (h : reader.readU64 = some (value, reader')) :
    reader.rest = beBytes 8 value.toNat ++ reader'.rest :=
  rest_of_readInteger (fun _ => UInt64.toNat_ofNat_of_lt') h

theorem readU16_eq_some {value : UInt16}
    (h : reader.readU16 = some (value, reader')) : reader.rest.length = 2 + reader'.rest.length := by
  rw [rest_of_readU16 h, List.length_append, length_beBytes]

theorem readArray_eq_some {n : Nat} {value : FixedBytes n}
    (h : reader.readArray n = some (value, reader')) : reader.rest = value.1 ++ reader'.rest := by
  unfold readArray at h
  split_ifs at h with hshort
  obtain ⟨rfl, rfl⟩ := Prod.mk.inj (Option.some.inj h)
  exact (List.take_append_drop _ _).symm

section Many

variable {α : Type} {read : WireReader → Option (α × WireReader)} {write : α → List UInt8} {P Q : α → Prop}
  {count : Nat} {values : List α}

/-- What every field that reads satisfies holds of all fields of a row, and fields that stood in front one by one
stood in front as a row. -/
theorem readMany_spec (h : ∀ reader value reader', read reader = some (value, reader') →
      P value ∧ (Q value → reader.rest = write value ++ reader'.rest))
    (hread : readMany read count reader = some (values, reader')) :
    values.length = count ∧ (∀ value ∈ values, P value) ∧
      ((∀ value ∈ values, Q value) → reader.rest = values.flatMap write ++ reader'.rest) := by
  induction count generalizing reader values with
  | zero =>
    obtain ⟨rfl, rfl⟩ := Prod.mk.inj (Option.some.inj hread)
    exact ⟨rfl, List.forall_mem_nil _, fun _ => rfl⟩
  | succ count ih =>
    simp only [readMany, Option.bind_eq_bind, Option.bind_eq_some_iff] at hread
    obtain ⟨⟨value, next⟩, hfirst, ⟨rest, last⟩, hrest, heq⟩ := hread
    obtain ⟨rfl, rfl⟩ := Prod.mk.inj (Option.some.inj heq)
    obtain ⟨hvalue, hbytes⟩ := h _ _ _ hfirst
    obtain ⟨hlength, hall, hrow⟩ := ih hrest
    refine ⟨congrArg (· + 1) hlength, List.forall_mem_cons.mpr ⟨hvalue, hall⟩, fun hvalues => ?_⟩
    obtain ⟨hvalue, hvalues⟩ := List.forall_mem_cons.mp hvalues
    rw [hbytes hvalue, hrow hvalues, List.flatMap_cons, List.append_assoc]

theorem of_readMany (h : ∀ reader value reader', read reader = some (value, reader') →
      P value ∧ reader.rest = write value ++ reader'.rest)
    (hread : readMany read count reader = some (values, reader')) :
    values.length = count ∧ (∀ value ∈ values, P value) ∧ reader.rest = values.flatMap write ++ reader'.rest := by
  obtain ⟨hlength, hall, hrow⟩ :=
    readMany_spec (Q := fun _ => True) (fun _ _ _ hread => (h _ _ _ hread).imp_right fun hbytes _ => hbytes) hread
  exact ⟨hlength, hall, hrow fun _ _ => trivial⟩

end Many

end WireReader

end Aegis
