import Mathlib.Data.Set.Insert

/-!
# Sliding replay windows

A receiver that must not take a sequence number twice keeps the greatest number so far and one bit for
each of the last `w` numbers. `Records window seen` says that the window stands for the set `seen` of
numbers taken: every number of `seen` is then refused (`check_of_mem`), and taking a number adds exactly
that number (`Records.update`). A number the window has forgotten is refused as well, so what is accepted
was never taken before.
-/

/-- The greatest number seen; bit `i` stands for the number `last - i`. -/
structure ReplayWindow (w : Nat) where
  last : Nat
  bits : BitVec w

namespace ReplayWindow

variable {w : Nat}

def fresh : ReplayWindow w := ⟨0, 0⟩

/-- The number is new: beyond the last one, or remembered as not seen. -/
def check (window : ReplayWindow w) (seq : Nat) : Bool :=
  window.last < seq || (window.last < seq + w && !window.bits.getLsbD (window.last - seq))

/-- Mark the number as seen, sliding the window up to it if it is beyond the last one. -/
def update (window : ReplayWindow w) (seq : Nat) : ReplayWindow w :=
  if window.last < seq then ⟨seq, window.bits <<< (seq - window.last) ||| 1#w⟩
  else ⟨window.last, window.bits ||| 1#w <<< (window.last - seq)⟩

/-- The window stands for the set `seen`. -/
structure Records (window : ReplayWindow w) (seen : Set Nat) : Prop where
  last_mem : window.last = 0 ∨ window.last ∈ seen
  le_last : ∀ seq ∈ seen, seq ≤ window.last
  bit : ∀ i < w, i ≤ window.last → (window.bits.getLsbD i = true ↔ window.last - i ∈ seen)

theorem fresh_records : (fresh : ReplayWindow w).Records ∅ where
  last_mem := Or.inl rfl
  le_last _ h := h.elim
  bit i _ _ := by simp [fresh]

variable {window : ReplayWindow w}

theorem check_of_lt {seq : Nat} (h : window.last < seq) : window.check seq = true := by
  simp [check, h]

theorem Records.check_of_mem {seen : Set Nat} (h : window.Records seen) {seq : Nat}
    (hseq : seq ∈ seen) : window.check seq = false := by
  have hle := h.le_last seq hseq
  have hold : ¬window.last < seq := by omega
  by_cases hin : window.last < seq + w
  · have hbit := (h.bit (window.last - seq) (by omega) (by omega)).mpr
    rw [show window.last - (window.last - seq) = seq by omega] at hbit
    simp [check, hold, hbit hseq]
  · simp [check, hold, hin]

theorem Records.check_of_not_mem {seen : Set Nat} (h : window.Records seen) {seq : Nat} (hseq : seq ∉ seen)
    (hin : window.last < seq + w) : window.check seq = true := by
  by_cases hnew : window.last < seq
  · exact check_of_lt hnew
  · have hbit := (h.bit (window.last - seq) (by omega) (by omega)).not
    rw [show window.last - (window.last - seq) = seq by omega] at hbit
    simp [check, hin, hbit.mpr hseq]

theorem Records.check_iff {seen : Set Nat} (h : window.Records seen) (seq : Nat) :
    window.check seq = true ↔ seq ∉ seen ∧ window.last < seq + w := by
  constructor
  · intro hcheck
    refine ⟨fun hmem => ?_, ?_⟩
    · rw [h.check_of_mem hmem] at hcheck
      cases hcheck
    · simp only [check, Bool.or_eq_true, Bool.and_eq_true, decide_eq_true_eq] at hcheck
      omega
  · exact fun ⟨hnew, hin⟩ => h.check_of_not_mem hnew hin

theorem Records.update {seen : Set Nat} (h : window.Records seen) (seq : Nat) :
    (window.update seq).Records (insert seq seen) := by
  by_cases hnew : window.last < seq
  · have hupdate : window.update seq = ⟨seq, window.bits <<< (seq - window.last) ||| 1#w⟩ := if_pos hnew
    rw [hupdate]
    refine ⟨Or.inr (Set.mem_insert _ _), ?_, ?_⟩
    · rintro s (rfl | hs)
      · exact le_refl _
      · exact (h.le_last s hs).trans hnew.le
    · intro i hw (hi : i ≤ seq)
      have hone : (1#w).getLsbD i = decide (i = 0) := by
        rw [BitVec.getLsbD_one]
        simp; omega
      simp only [BitVec.getLsbD_or, BitVec.getLsbD_shiftLeft, hone, Set.mem_insert_iff, Bool.or_eq_true,
        Bool.and_eq_true, decide_eq_true_eq, Bool.not_eq_true', decide_eq_false_iff_not, hw, true_and]
      -- a bit below the shift is fresh: its number lies beyond everything seen
      by_cases hshift : i < seq - window.last
      · have hfar : seq - i ∉ seen := fun hmem => by
          have := h.le_last _ hmem
          omega
        simp only [hshift, not_true_eq_false, false_and, false_or, hfar, or_false]
        omega
      · have hbit := h.bit (i - (seq - window.last)) (by omega) (by omega)
        rw [show window.last - (i - (seq - window.last)) = seq - i by omega] at hbit
        simp only [hshift, not_false_eq_true, true_and, hbit]
        have : i = 0 ↔ seq - i = seq := by omega
        rw [this, or_comm]
  · have hupdate : window.update seq
        = ⟨window.last, window.bits ||| 1#w <<< (window.last - seq)⟩ := if_neg hnew
    rw [hupdate]
    refine ⟨h.last_mem.imp_right (Set.mem_insert_of_mem _), ?_, ?_⟩
    · rintro s (rfl | hs)
      · exact not_lt.mp hnew
      · exact h.le_last s hs
    · intro i hw (hi : i ≤ window.last)
      have hone : (1#w <<< (window.last - seq)).getLsbD i = decide (window.last - i = seq) := by
        rw [BitVec.getLsbD_shiftLeft, BitVec.getLsbD_one]
        simp only [hw, decide_true, Bool.true_and]
        rw [Bool.eq_iff_iff]
        simp
        omega
      rw [BitVec.getLsbD_or, hone, Bool.or_eq_true, h.bit i hw hi, decide_eq_true_eq,
        Set.mem_insert_iff, or_comm]

end ReplayWindow
