import Mathlib.Tactic.NormNum.Basic
import Mathlib.Tactic.Ring

/-!
# Big-endian byte strings

`beBytes n k` are the low `n` bytes of `k`, most significant first, and `beNat` reads a byte string
back. They are inverse on the strings of length `n` and the numbers below `256 ^ n`
(`beNat_beBytes`, `beBytes_beNat`).
-/

/-- The low `n` bytes of `k`, most significant first. -/
def beBytes : Nat → Nat → List UInt8
  | 0, _ => []
  | n + 1, k => UInt8.ofNat (k / 256 ^ n) :: beBytes n k

/-- The number a byte string spells, most significant byte first. -/
def beNat (bytes : List UInt8) : Nat := bytes.foldl (fun value byte => value * 256 + byte.toNat) 0

@[simp] theorem length_beBytes (n k : Nat) : (beBytes n k).length = n := by
  induction n with
  | zero => rfl
  | succ n ih => simp [beBytes, ih]

theorem foldl_be (bytes : List UInt8) (value : Nat) :
    bytes.foldl (fun value byte => value * 256 + byte.toNat) value
      = value * 256 ^ bytes.length + beNat bytes := by
  induction bytes generalizing value with
  | nil => simp [beNat]
  | cons byte rest ih =>
    have hcons : beNat (byte :: rest) = (0 * 256 + byte.toNat) * 256 ^ rest.length + beNat rest := ih _
    rw [List.foldl_cons, ih, hcons, List.length_cons, pow_succ]
    ring

theorem beNat_cons (byte : UInt8) (rest : List UInt8) :
    beNat (byte :: rest) = byte.toNat * 256 ^ rest.length + beNat rest := by
  rw [beNat, List.foldl_cons, foldl_be]
  simp

theorem beNat_lt (bytes : List UInt8) : beNat bytes < 256 ^ bytes.length := by
  induction bytes with
  | nil => simp [beNat]
  | cons byte rest ih =>
    have hbyte : byte.toNat + 1 ≤ 256 := byte.toNat_lt
    rw [beNat_cons, List.length_cons, pow_succ]
    calc byte.toNat * 256 ^ rest.length + beNat rest
        < byte.toNat * 256 ^ rest.length + 256 ^ rest.length := by omega
      _ = (byte.toNat + 1) * 256 ^ rest.length := by ring
      _ ≤ 256 * 256 ^ rest.length := Nat.mul_le_mul_right _ hbyte
      _ = 256 ^ rest.length * 256 := by ring

theorem beNat_beBytes (n k : Nat) : beNat (beBytes n k) = k % 256 ^ n := by
  induction n with
  | zero => simp [beBytes, beNat, Nat.mod_one]
  | succ n ih =>
    rw [beBytes, beNat_cons, length_beBytes, ih, pow_succ, Nat.mod_mul]
    simp only [UInt8.toNat_ofNat', Nat.reducePow]
    ring

theorem beNat_beBytes_of_lt {n k : Nat} (h : k < 256 ^ n) : beNat (beBytes n k) = k := by
  rw [beNat_beBytes, Nat.mod_eq_of_lt h]

theorem beBytes_mod (n k j : Nat) : beBytes n (k + j * 256 ^ n) = beBytes n k := by
  induction n generalizing j with
  | zero => rfl
  | succ n ih =>
    have hsplit : k + j * 256 ^ (n + 1) = k + (j * 256) * 256 ^ n := by ring
    rw [beBytes, beBytes, hsplit, ih, Nat.add_mul_div_right _ _ (Nat.pow_pos (by norm_num))]
    congr 1
    apply UInt8.toNat_inj.mp
    simp

theorem beBytes_beNat (bytes : List UInt8) : beBytes bytes.length (beNat bytes) = bytes := by
  induction bytes with
  | nil => rfl
  | cons byte rest ih =>
    have hlt := beNat_lt rest
    rw [List.length_cons, beBytes, beNat_cons, Nat.add_comm, beBytes_mod, ih,
      Nat.add_mul_div_right _ _ (Nat.pow_pos (by norm_num)), Nat.div_eq_of_lt hlt]
    simp

theorem beBytes_beNat_of_length {n : Nat} {bytes : List UInt8} (h : bytes.length = n) :
    beNat bytes < 256 ^ n ∧ beBytes n (beNat bytes) = bytes := by
  subst h
  exact ⟨beNat_lt bytes, beBytes_beNat bytes⟩

theorem beBytes_inj {n k j : Nat} (hk : k < 256 ^ n) (hj : j < 256 ^ n) (h : beBytes n k = beBytes n j) : k = j := by
  rw [← beNat_beBytes_of_lt hk, ← beNat_beBytes_of_lt hj, h]
