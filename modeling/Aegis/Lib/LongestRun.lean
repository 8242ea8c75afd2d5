import Mathlib.Data.List.TakeWhile

/-!
# The first longest run

A scan that goes through a list for stretches of entries with a property, here `hit`, and keeps the first one
among the longest of at least two. A step either passes an entry without the property or a whole stretch, so no
stretch lies on both sides of the place where the scan stands.
-/

namespace LongestRun

variable {α : Type} {hit : α → Bool} {entries : List α}

/-- The entries from `start` on for `length` places have the property. -/
def Run (hit : α → Bool) (entries : List α) (start length : Nat) : Prop :=
  ∀ k < length, ∃ entry, entries[start + k]? = some entry ∧ hit entry = true

/-- The stretch at `start` is the first one among the longest of at least two. -/
structure FirstLongest (hit : α → Bool) (entries : List α) (start length : Nat) : Prop where
  two_le : 2 ≤ length
  run : Run hit entries start length
  longest : ∀ i l, Run hit entries i l → l ≤ length
  first : ∀ i, Run hit entries i length → start ≤ i

/-- The loop: where the best stretch starts and how long it is, from the place where the scan stands. -/
def scan (hit : α → Bool) (entries : List α) : Nat → Nat → Nat × Nat → Nat × Nat
  | 0, _, best => best
  | turns + 1, i, best =>
    match entries[i]? with
    | none => best
    | some entry =>
      if hit entry then
        let length := ((entries.drop i).takeWhile hit).length
        scan hit entries turns (i + length) (if best.2 < length ∧ 2 ≤ length then (i, length) else best)
      else scan hit entries turns (i + 1) best

/-- What is known where the scan stands: the best is a stretch behind it or still the first value, which is no
stretch, and every stretch that starts behind it ends there and is not better. -/
structure Scanned (hit : α → Bool) (entries : List α) (away i : Nat) (best : Nat × Nat) : Prop where
  kept : best = (away, 0) ∨ 2 ≤ best.2 ∧ Run hit entries best.1 best.2 ∧ best.1 + best.2 ≤ i
  ends : ∀ a l, a < i → Run hit entries a l → a + l ≤ i
  dominated : ∀ a l, a < i → 2 ≤ l → Run hit entries a l → l ≤ best.2 ∧ (l = best.2 → best.1 ≤ a)

theorem Scanned.start (away : Nat) : Scanned hit entries away 0 (away, 0) :=
  ⟨Or.inl rfl, fun _ _ ha => absurd ha (Nat.not_lt_zero _), fun _ _ ha => absurd ha (Nat.not_lt_zero _)⟩

variable {away i : Nat} {best : Nat × Nat}

theorem Scanned.skip (h : Scanned hit entries away i best) {entry : α} (hentry : entries[i]? = some entry)
    (hmiss : hit entry = false) : Scanned hit entries away (i + 1) best := by
  have hno : ∀ a l, a ≤ i → i < a + l → ¬ Run hit entries a l := by
    intro a l ha hl hrun
    obtain ⟨entry', hentry', hhit⟩ := hrun (i - a) (by omega)
    rw [show a + (i - a) = i by omega, hentry, Option.some.injEq] at hentry'
    rw [← hentry', hmiss] at hhit
    cases hhit
  refine ⟨?_, fun a l ha hrun => ?_, fun a l ha hl hrun => ?_⟩
  · rcases h.kept with hnone | ⟨htwo, hrun, hle⟩
    · exact Or.inl hnone
    · exact Or.inr ⟨htwo, hrun, by omega⟩
  · by_contra hcross
    exact hno a l (by omega) (by omega) hrun
  · by_cases ha' : a = i
    · exact absurd hrun (hno a l (by omega) (by omega))
    · exact h.dominated a l (by omega) hl hrun

theorem run_takeWhile (hit : α → Bool) (entries : List α) (i : Nat) :
    Run hit entries i ((entries.drop i).takeWhile hit).length ∧
      ∀ entry, entries[i + ((entries.drop i).takeWhile hit).length]? = some entry → hit entry = false := by
  have hget : ∀ k, entries[i + k]?
      = ((entries.drop i).takeWhile hit ++ (entries.drop i).dropWhile hit)[k]? := by
    intro k
    rw [List.takeWhile_append_dropWhile, List.getElem?_drop]
  constructor
  · intro k hk
    refine ⟨((entries.drop i).takeWhile hit)[k], ?_, List.mem_takeWhile_imp (List.getElem_mem hk)⟩
    rw [hget, List.getElem?_append_left hk, List.getElem?_eq_getElem hk]
  · intro entry hentry
    rw [hget, List.getElem?_append_right (Nat.le_refl _), Nat.sub_self, ← List.head?_eq_getElem?] at hentry
    have hhead := List.head?_dropWhile_not hit (entries.drop i)
    rw [hentry] at hhead
    exact hhead

/-- A whole stretch is passed at once, and kept if it is longer than the best so far. -/
theorem Scanned.pass (h : Scanned hit entries away i best) {length : Nat} (hpositive : 0 < length)
    (hrun : Run hit entries i length) (hend : ∀ entry, entries[i + length]? = some entry → hit entry = false) :
    Scanned hit entries away (i + length) (if best.2 < length ∧ 2 ≤ length then (i, length) else best) := by
  have hends : ∀ a l, a < i + length → Run hit entries a l → a + l ≤ i + length := by
    intro a l ha hrun'
    by_contra hcross
    obtain ⟨entry, hentry, hhit⟩ := hrun' (i + length - a) (by omega)
    rw [show a + (i + length - a) = i + length by omega] at hentry
    rw [hend entry hentry] at hhit
    cases hhit
  refine ⟨?_, hends, fun a l ha hl hrun' => ?_⟩
  · split_ifs with hbetter
    · exact Or.inr ⟨hbetter.2, hrun, Nat.le_refl _⟩
    · rcases h.kept with hnone | ⟨htwo, hbest, hle⟩
      · exact Or.inl hnone
      · exact Or.inr ⟨htwo, hbest, by omega⟩
  · have hbound := hends a l ha hrun'
    by_cases hbehind : a < i
    · -- it lies behind the stretch that is passed
      have hdominated := h.dominated a l hbehind hl hrun'
      split_ifs with hbetter
      · dsimp only
        omega
      · exact hdominated
    · -- it is a part of the stretch that is passed
      split_ifs with hbetter
      · dsimp only
        omega
      · rcases h.kept with hnone | ⟨htwo, hbest, hle⟩
        · have hzero : best.2 = 0 := congrArg Prod.snd hnone
          omega
        · omega

theorem Scanned.finished (h : Scanned hit entries away i best) (hend : entries.length ≤ i) :
    best = (away, 0) ∧ (∀ a, ¬ Run hit entries a 2) ∨ FirstLongest hit entries best.1 best.2 := by
  have hbehind : ∀ a l, 2 ≤ l → Run hit entries a l → a < i := by
    intro a l hl hrun
    obtain ⟨entry, hentry, -⟩ := hrun 0 (by omega)
    have hlt := (List.getElem?_eq_some_iff.mp hentry).1
    omega
  rcases h.kept with hnone | ⟨htwo, hrun, -⟩
  · refine Or.inl ⟨hnone, fun a hrun => ?_⟩
    have hle := (h.dominated a 2 (hbehind a 2 (Nat.le_refl 2) hrun) (Nat.le_refl 2) hrun).1
    rw [hnone] at hle
    exact absurd (show 2 ≤ 0 from hle) (by decide)
  · refine Or.inr ⟨htwo, hrun, fun a l hrun' => ?_, fun a hrun' => ?_⟩
    · rcases Nat.lt_or_ge l 2 with hshort | hl
      · omega
      · exact (h.dominated a l (hbehind a l hl hrun') hl hrun').1
    · exact (h.dominated a best.2 (hbehind a best.2 htwo hrun') htwo hrun').2 rfl

/-- The scan to the end finds the first one among the longest stretches, if there is one of at least two. -/
theorem scan_spec {turns : Nat} (h : Scanned hit entries away i best) (hturns : entries.length ≤ i + turns) :
    scan hit entries turns i best = (away, 0) ∧ (∀ a, ¬ Run hit entries a 2) ∨
      FirstLongest hit entries (scan hit entries turns i best).1 (scan hit entries turns i best).2 := by
  induction turns generalizing i best with
  | zero => exact h.finished hturns
  | succ turns ih =>
    rw [scan]
    cases hentry : entries[i]? with
    | none => exact h.finished (List.getElem?_eq_none_iff.mp hentry)
    | some entry =>
      dsimp only
      by_cases hhit : hit entry = true
      · rw [if_pos hhit]
        obtain ⟨hrun, hend⟩ := run_takeWhile hit entries i
        have hpositive : 0 < ((entries.drop i).takeWhile hit).length := by
          by_contra hzero
          rw [Nat.eq_zero_of_not_pos hzero, Nat.add_zero] at hend
          rw [hend entry hentry] at hhit
          cases hhit
        exact ih (h.pass hpositive hrun hend) (by omega)
      · rw [if_neg hhit]
        exact ih (h.skip hentry (Bool.eq_false_iff.mpr hhit)) (by omega)

end LongestRun
