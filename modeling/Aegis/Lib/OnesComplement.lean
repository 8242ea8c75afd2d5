import Mathlib.Data.Nat.ModEq
import Mathlib.Tactic.Ring
import Mathlib.Algebra.BigOperators.Group.List.Basic

/-!
# One's-complement sums

Addition with end-around carry in a base `b`: the carry out of the top is added back at the bottom. The sum
of a list of digits is its sum modulo `b - 1`, except that zero and `b - 1` are told apart: zero comes from
zeros only. `Folded` says this, and which sums end at `b - 1` follows from it whatever the order of the
carries, and whatever unit modulo `b - 1` the digits are multiplied by.
-/

namespace OnesComplement

/-- Addition with end-around carry. -/
def endAroundAdd (b x y : Nat) : Nat := (x + y) % b + (x + y) / b

/-- The sum of the digits, with every carry added back at once. -/
def endAroundSum (b : Nat) (digits : List Nat) : Nat := digits.foldl (endAroundAdd b) 0

/-- `s` is what end-around carries make of the number `n`. -/
structure Folded (b n s : Nat) : Prop where
  lt : s < b
  modEq : s ≡ n [MOD b - 1]
  eq_zero_iff : s = 0 ↔ n = 0

theorem mod_add_div_modEq (b n : Nat) : n % b + n / b ≡ n [MOD b - 1] := by
  cases b with
  | zero => rw [Nat.mod_zero, Nat.div_zero]; rfl
  | succ k =>
    show n % (k + 1) + n / (k + 1) ≡ n [MOD k]
    conv_rhs => rw [← Nat.mod_add_div n (k + 1)]
    have hdvd : (k + 1) * (n / (k + 1)) = n / (k + 1) + k * (n / (k + 1)) := by ring
    rw [hdvd, ← Nat.add_assoc]
    exact (Nat.add_mul_mod_self_left _ k _).symm

theorem mod_add_div_eq_zero_iff (b n : Nat) : n % b + n / b = 0 ↔ n = 0 := by
  constructor
  · intro h
    have hn := Nat.mod_add_div n b
    rw [Nat.eq_zero_of_add_eq_zero_left h, Nat.eq_zero_of_add_eq_zero_right h] at hn
    omega
  · rintro rfl
    rw [Nat.zero_mod, Nat.zero_div]

namespace Folded

variable {b n s : Nat}

theorem of_lt (h : n < b) : Folded b n n :=
  ⟨h, Nat.ModEq.refl n, Iff.rfl⟩

theorem add (h : Folded b n s) {x : Nat} (hx : x < b) : Folded b (n + x) (endAroundAdd b s x) where
  lt := by
    have hs := h.lt
    show (s + x) % b + (s + x) / b < b
    rcases Nat.lt_or_ge (s + x) b with hlt | hge
    · rwa [Nat.mod_eq_of_lt hlt, Nat.div_eq_of_lt hlt]
    · have hrest : s + x - b < b := by omega
      rw [Nat.mod_eq_sub_mod hge, Nat.mod_eq_of_lt hrest, Nat.div_eq_sub_div (by omega) hge, Nat.div_eq_of_lt hrest]
      omega
  modEq := (mod_add_div_modEq b (s + x)).trans (h.modEq.add_right x)
  eq_zero_iff := by
    have hzero := h.eq_zero_iff
    rw [endAroundAdd, mod_add_div_eq_zero_iff]
    omega

theorem of_fold (h : Folded b (n % b + n / b) s) : Folded b n s :=
  ⟨h.lt, h.modEq.trans (mod_add_div_modEq b n), h.eq_zero_iff.trans (mod_add_div_eq_zero_iff b n)⟩

theorem foldl (h : Folded b n s) (digits : List Nat) (hdigits : ∀ x ∈ digits, x < b) :
    Folded b (n + digits.sum) (digits.foldl (endAroundAdd b) s) := by
  induction digits generalizing n s with
  | nil => exact h
  | cons x digits ih =>
    rw [List.sum_cons, ← Nat.add_assoc]
    exact ih (h.add (hdigits x List.mem_cons_self)) fun y hy => hdigits y (List.mem_cons_of_mem x hy)

theorem endAroundSum (hb : 0 < b) (digits : List Nat) (hdigits : ∀ x ∈ digits, x < b) :
    Folded b digits.sum (endAroundSum b digits) := by
  have hfold := (of_lt hb).foldl digits hdigits
  rwa [Nat.zero_add] at hfold

theorem eq_top_iff (h : Folded b n s) (hb : 1 < b) : s = b - 1 ↔ n ≠ 0 ∧ n ≡ 0 [MOD b - 1] := by
  have hlt := h.lt
  have hzero := h.eq_zero_iff
  constructor
  · intro htop
    refine ⟨by omega, h.modEq.symm.trans ?_⟩
    rw [htop]
    exact Nat.modEq_zero_iff_dvd.mpr (dvd_refl _)
  · rintro ⟨hn, hmod⟩
    -- a positive multiple of `b - 1` below `b`
    obtain ⟨k, hk⟩ := Nat.modEq_zero_iff_dvd.mp (h.modEq.trans hmod)
    have hne : k ≠ 0 := by
      rintro rfl
      exact hn (hzero.mp hk)
    have hle : b - 1 ≤ s := hk ▸ Nat.le_mul_of_pos_right _ (Nat.pos_of_ne_zero hne)
    omega

/-- Two sums that agree up to a unit modulo `b - 1`, such as an order of bytes, end at the top together. -/
theorem eq_top_iff_of_mul {n' s' unit inverse : Nat} (hb : 1 < b) (h : Folded b n s) (h' : Folded b n' s')
    (hmul : n ≡ unit * n' [MOD b - 1]) (hmul' : n' ≡ inverse * n [MOD b - 1]) (hzero : n = 0 ↔ n' = 0) :
    s = b - 1 ↔ s' = b - 1 := by
  rw [h.eq_top_iff hb, h'.eq_top_iff hb]
  refine and_congr (not_congr hzero) ⟨fun hmod => ?_, fun hmod => ?_⟩
  · exact hmul'.trans (hmod.mul_left inverse)
  · exact hmul.trans (hmod.mul_left unit)

end Folded

end OnesComplement
