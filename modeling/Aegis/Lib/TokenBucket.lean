import Mathlib.Algebra.Order.Field.Basic
import Mathlib.Tactic.Linarith
import Mathlib.Tactic.Ring

/-!
# Token buckets

A token bucket fills at a rate up to a burst. `level` is what a bucket holds after some time without use: it
does not matter how often it is brought up to date in between (`level_level`), and it grows no faster than the
rate. `Metered` collects what a system must show of a level it pays its admissions from, and
`Metered.spent_le` is the bound on what it admits in any interval of time: a burst and what flows in meanwhile.
-/

namespace TokenBucket

variable {K : Type} [Field K] [LinearOrder K]

/-- What a bucket with some tokens holds after a time. -/
def level (rate burst tokens elapsed : K) : K := min burst (tokens + elapsed * rate)

variable {rate burst tokens elapsed elapsed' : K}

theorem level_le_burst (rate burst tokens elapsed : K) : level rate burst tokens elapsed ≤ burst := min_le_left _ _

theorem level_zero (h : tokens ≤ burst) : level rate burst tokens 0 = tokens := by
  rw [level, zero_mul, add_zero, min_eq_right h]

theorem level_of_full (h : burst ≤ tokens + elapsed * rate) : level rate burst tokens elapsed = burst := min_eq_left h

variable [IsStrictOrderedRing K]

theorem level_nonneg (hrate : 0 ≤ rate) (hburst : 0 ≤ burst) (htokens : 0 ≤ tokens) (helapsed : 0 ≤ elapsed) :
    0 ≤ level rate burst tokens elapsed :=
  le_min hburst (add_nonneg htokens (mul_nonneg helapsed hrate))

theorem level_level (hrate : 0 ≤ rate) (helapsed : 0 ≤ elapsed') :
    level rate burst (level rate burst tokens elapsed) elapsed' = level rate burst tokens (elapsed + elapsed') := by
  have hmore : 0 ≤ elapsed' * rate := mul_nonneg helapsed hrate
  unfold level
  rw [← min_add_add_right, ← min_assoc, min_eq_left (le_add_of_nonneg_right hmore), add_mul, add_assoc]

theorem level_add_le (hrate : 0 ≤ rate) (helapsed : 0 ≤ elapsed') :
    level rate burst tokens (elapsed + elapsed') ≤ level rate burst tokens elapsed + rate * elapsed' := by
  have hmore : 0 ≤ rate * elapsed' := mul_nonneg hrate helapsed
  unfold level
  rw [← min_add_add_right]
  refine min_le_min (le_add_of_nonneg_right hmore) (le_of_eq ?_)
  ring

/-! ### Admissions in an interval -/

variable {σ α : Type}

/-- What the actions for which `within` holds cost over a run. -/
def spent (step : σ → α → σ) (cost : σ → α → K) (within : α → Bool) : σ → List α → K
  | _, [] => 0
  | s, a :: rest => (if within a then cost s a else 0) + spent step cost within (step s a) rest

/-- A system that pays its admissions from a level. `Inv s now` says that the state is sound as of a time. -/
structure Metered (step : σ → α → σ) (time : α → K) (cost : σ → α → K) (Inv : σ → K → Prop)
    (level : σ → K → K) (rate burst : K) : Prop where
  rate_nonneg : 0 ≤ rate
  inv : ∀ {s now a}, Inv s now → now ≤ time a → Inv (step s a) (time a)
  nonneg : ∀ {s now}, Inv s now → 0 ≤ level s now
  le_burst : ∀ {s now}, Inv s now → level s now ≤ burst
  /-- Without use the level grows no faster than the rate, and the state stays sound. -/
  grows : ∀ {s now t}, Inv s now → now ≤ t → Inv s t ∧ level s t ≤ level s now + rate * (t - now)
  pays : ∀ {s a}, Inv s (time a) → level (step s a) (time a) + cost s a ≤ level s (time a)

namespace Metered

variable {step : σ → α → σ} {time : α → K} {cost : σ → α → K} {Inv : σ → K → Prop} {lvl : σ → K → K}
  {s : σ} {now t₁ t₂ : K} {actions : List α}

omit [IsStrictOrderedRing K] in
theorem spent_eq_zero (hnow : t₂ < now) (hclock : List.IsChain (· ≤ ·) (now :: actions.map time)) :
    spent step cost (fun a => t₁ ≤ time a && time a ≤ t₂) s actions = 0 := by
  induction actions generalizing s now with
  | nil => rfl
  | cons a rest ih =>
    rw [List.map_cons, List.isChain_cons_cons] at hclock
    have hafter : t₂ < time a := hnow.trans_le hclock.1
    simp only [spent, not_le.mpr hafter, decide_false, Bool.and_false, Bool.false_eq_true, if_false, zero_add]
    exact ih hafter hclock.2

theorem spent_le_level (h : Metered step time cost Inv lvl rate burst) (hinv : Inv s now) (hge : t₁ ≤ now)
    (hle : now ≤ t₂) (hclock : List.IsChain (· ≤ ·) (now :: actions.map time)) :
    spent step cost (fun a => t₁ ≤ time a && time a ≤ t₂) s actions ≤ lvl s now + rate * (t₂ - now) := by
  induction actions generalizing s now with
  | nil => exact add_nonneg (h.nonneg hinv) (mul_nonneg h.rate_nonneg (sub_nonneg.mpr hle))
  | cons a rest ih =>
    rw [List.map_cons, List.isChain_cons_cons] at hclock
    obtain ⟨hinv', hgrows⟩ := h.grows hinv hclock.1
    have hflow : 0 ≤ rate * (t₂ - now) := mul_nonneg h.rate_nonneg (sub_nonneg.mpr hle)
    rcases le_or_gt (time a) t₂ with hin | hout
    · have hrest := ih (h.inv hinv hclock.1) (hge.trans hclock.1) hin hclock.2
      have hpays := h.pays hinv'
      simp only [spent, hge.trans hclock.1, hin, decide_true, Bool.and_true, if_true]
      calc cost s a + spent step cost (fun a => t₁ ≤ time a && time a ≤ t₂) (step s a) rest
          ≤ cost s a + (lvl (step s a) (time a) + rate * (t₂ - time a)) := by linarith
        _ ≤ lvl s (time a) + rate * (t₂ - time a) := by linarith
        _ ≤ lvl s now + rate * (time a - now) + rate * (t₂ - time a) := by linarith
        _ = lvl s now + rate * (t₂ - now) := by ring
    · simp only [spent, not_le.mpr hout, decide_false, Bool.and_false, Bool.false_eq_true, if_false, zero_add]
      rw [spent_eq_zero hout hclock.2]
      exact add_nonneg (h.nonneg hinv) hflow

/-- In any interval at most a burst and what flows in meanwhile is spent. -/
theorem spent_le (h : Metered step time cost Inv lvl rate burst) (hinv : Inv s now) (hle : t₁ ≤ t₂)
    (hclock : List.IsChain (· ≤ ·) (now :: actions.map time)) :
    spent step cost (fun a => t₁ ≤ time a && time a ≤ t₂) s actions ≤ burst + rate * (t₂ - t₁) := by
  have hflow : 0 ≤ rate * (t₂ - t₁) := mul_nonneg h.rate_nonneg (sub_nonneg.mpr hle)
  have hburst : 0 ≤ burst := (h.nonneg hinv).trans (h.le_burst hinv)
  induction actions generalizing s now with
  | nil => exact add_nonneg hburst hflow
  | cons a rest ih =>
    rw [List.map_cons, List.isChain_cons_cons] at hclock
    obtain ⟨hinv', -⟩ := h.grows hinv hclock.1
    rcases lt_or_ge (time a) t₁ with hbefore | hafter
    · simp only [spent, not_le.mpr hbefore, decide_false, Bool.false_and, Bool.false_eq_true, if_false, zero_add]
      exact ih (h.inv hinv hclock.1) hclock.2
    · -- the interval has begun: from here on the level at its first action counts
      rcases le_or_gt (time a) t₂ with hin | hout
      · have hchain : List.IsChain (· ≤ ·) (time a :: (a :: rest).map time) :=
          List.isChain_cons_cons.mpr ⟨le_refl _, hclock.2⟩
        have hspent := h.spent_le_level hinv' hafter hin hchain
        have hfull := h.le_burst hinv'
        have hshorter : rate * (t₂ - time a) ≤ rate * (t₂ - t₁) :=
          mul_le_mul_of_nonneg_left (by linarith) h.rate_nonneg
        linarith
      · simp only [spent, not_le.mpr hout, decide_false, Bool.and_false, Bool.false_eq_true, if_false, zero_add]
        rw [spent_eq_zero hout hclock.2]
        exact add_nonneg hburst hflow

end Metered

end TokenBucket
