import Mathlib.Data.List.MinMax

/-!
# A running best

One pass over a list that keeps the best element seen so far among those that pass a test. `List.argmax` of
the filtered list is what such a pass computes, and the element it ends with is the first one of greatest
value.
-/

namespace List

variable {α β : Type} [LinearOrder β]

/-- A pass that skips what fails the test and otherwise replaces its best only by something strictly
better. What is known of the elements (`P`) may be used to show that a step is of this kind. -/
theorem foldl_eq_argmax_filter {P : α → Prop} {step : Option α → α → Option α} (f : α → β) (p : α → Bool)
    (hskip : ∀ best x, P x → p x = false → step best x = best) (hfirst : ∀ x, P x → p x = true → step none x = some x)
    (hnext : ∀ b x, P b → P x → p x = true → step (some b) x = if f b < f x then some x else some b)
    {l : List α} (hl : ∀ x ∈ l, P x) : l.foldl step none = (l.filter p).argmax f := by
  -- the induction needs the best so far, which is one of the elements
  have hpass : ∀ (l : List α) (best : Option α), (∀ x ∈ l, P x) → (∀ b ∈ best, P b) →
      l.foldl step best = (l.filter p).foldl (argAux fun b c => f c < f b) best := by
    intro l
    induction l with
    | nil => intro best _ _; rfl
    | cons x l ih =>
      intro best hl hbest
      have hx := hl x mem_cons_self
      have htail : ∀ y ∈ l, P y := fun y hy => hl y (mem_cons_of_mem x hy)
      rw [foldl_cons]
      cases hp : p x with
      | false =>
        rw [hskip best x hx hp, filter_cons_of_neg (by simp [hp])]
        exact ih best htail hbest
      | true =>
        have hstep : step best x = argAux (fun b c => f c < f b) best x := by
          cases best with
          | none => exact hfirst x hx hp
          | some b => exact hnext b x (hbest b rfl) hx hp
        have hbest' : ∀ b ∈ argAux (fun b c => f c < f b) best x, P b := by
          intro b hb
          cases best with
          | none =>
            obtain rfl : x = b := by simpa [argAux] using hb
            exact hx
          | some c =>
            simp only [argAux] at hb
            split_ifs at hb
            · obtain rfl : x = b := by simpa using hb
              exact hx
            · exact hbest b hb
        rw [filter_cons_of_pos hp, foldl_cons, hstep]
        exact ih _ htail hbest'
  exact hpass l none hl (by simp)

theorem argmax_filter_eq_some_iff [DecidableEq α] (f : α → β) (p : α → Bool) (l : List α) (m : α) :
    (l.filter p).argmax f = some m ↔ ∃ before after, l = before ++ m :: after ∧ p m = true ∧
      (∀ x ∈ l, p x = true → f x ≤ f m) ∧ ∀ x ∈ before, p x = true → f x < f m := by
  rw [argmax_eq_some_iff]
  constructor
  · rintro ⟨hmem, hmax, hfirst⟩
    obtain ⟨hl, hp⟩ := mem_filter.mp hmem
    obtain ⟨before, after, rfl, hnot⟩ := eq_append_cons_of_mem hl
    refine ⟨before, after, rfl, hp, fun x hx hpx => hmax x (mem_filter.mpr ⟨hx, hpx⟩), ?_⟩
    intro x hx hpx
    have hx' : x ∈ before.filter p := mem_filter.mpr ⟨hx, hpx⟩
    have hnot' : m ∉ before.filter p := fun h => hnot (mem_of_mem_filter h)
    by_contra hlt
    have hle := hfirst x (mem_filter.mpr ⟨mem_append_left _ hx, hpx⟩) (not_lt.mp hlt)
    rw [filter_append, idxOf_append_of_mem hx', idxOf_append_of_notMem hnot'] at hle
    have := idxOf_lt_length_of_mem hx'
    omega
  · rintro ⟨before, after, rfl, hp, hmax, hbefore⟩
    have hnot : m ∉ before.filter p := fun h =>
      lt_irrefl _ (hbefore m (mem_of_mem_filter h) (mem_filter.mp h).2)
    refine ⟨mem_filter.mpr ⟨by simp, hp⟩, fun x hx => hmax x (mem_of_mem_filter hx) (mem_filter.mp hx).2, ?_⟩
    intro x hx hle
    have hnotx : x ∉ before.filter p := fun h =>
      not_lt.mpr hle (hbefore x (mem_of_mem_filter h) (mem_filter.mp h).2)
    rw [filter_append, idxOf_append_of_notMem hnot, idxOf_append_of_notMem hnotx, filter_cons_of_pos hp,
      idxOf_cons_self]
    omega

end List
