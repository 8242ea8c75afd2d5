import Mathlib.Algebra.Order.Group.Defs
import Mathlib.Algebra.Order.Monoid.Defs

/-!
# Counting in fixed windows

A counter admits up to a limit in a window of time, closes the window when its length has passed, and opens
the next one when it is needed. An interval as long as a window meets at most two of them, since the second to
open in it opens a window's length after the first, so it holds at most twice the limit. `Tally` is the
invariant behind that: the admissions of the interval so far against the window that is open now.
-/

/-- An open window: when it was opened and what it has admitted. -/
structure FixedWindow (T : Type) where
  start : T
  count : Nat

namespace FixedWindow

variable {T : Type} [AddCommGroup T] [LinearOrder T]

/-- `total` is what was admitted from `t` up to, but not including, `t + length`, as of `now`, by a counter whose
open window is `open?`. -/
structure Tally (limit : Nat) (length t now : T) (total : Nat) (open? : Option (FixedWindow T)) : Prop where
  before : now < t → total = 0
  bound : total ≤ 2 * limit
  /-- Without an open window the interval, while it lasts, has met one window. -/
  closed : open? = none → now < t + length → total ≤ limit
  opened : ∀ window, open? = some window → window.count ≤ limit ∧ window.start ≤ now ∧
    (now < t + length → total ≤ limit + window.count ∧ (window.start < t → total ≤ window.count))

namespace Tally

variable {limit total : Nat} {length t now now' : T} {open? : Option (FixedWindow T)} {window : FixedWindow T}

theorem start (limit : Nat) (length t now : T) : Tally limit length t now 0 none :=
  ⟨fun _ => rfl, Nat.zero_le _, fun _ _ => Nat.zero_le _, nofun⟩

theorem later (h : Tally limit length t now total open?) (hle : now ≤ now') :
    Tally limit length t now' total open? := by
  refine ⟨fun hlt => h.before (hle.trans_lt hlt), h.bound, fun hnone hlt => h.closed hnone (hle.trans_lt hlt), ?_⟩
  intro window hwindow
  obtain ⟨hcount, hstart, htotal⟩ := h.opened window hwindow
  exact ⟨hcount, hstart.trans hle, fun hlt => htotal (hle.trans_lt hlt)⟩

theorem close [IsOrderedAddMonoid T] (h : Tally limit length t now total (some window))
    (hpassed : window.start + length ≤ now) : Tally limit length t now total none := by
  refine ⟨h.before, h.bound, fun _ hlt => ?_, nofun⟩
  obtain ⟨hcount, -, htotal⟩ := h.opened window rfl
  have hfirst : window.start < t := lt_of_add_lt_add_right (hpassed.trans_lt hlt)
  exact ((htotal hlt).2 hfirst).trans hcount

theorem opens (h : Tally limit length t now total none) : Tally limit length t now total (some ⟨now, 0⟩) := by
  refine ⟨h.before, h.bound, nofun, ?_⟩
  rintro window hwindow
  obtain rfl := Option.some.inj hwindow
  refine ⟨Nat.zero_le _, le_refl _, fun hlt => ⟨h.closed rfl hlt, fun hbefore => ?_⟩⟩
  exact Nat.le_of_eq (h.before hbefore)

theorem admits (h : Tally limit length t now total (some window)) (hroom : window.count < limit) :
    Tally limit length t now (total + if t ≤ now ∧ now < t + length then 1 else 0)
      (some { window with count := window.count + 1 }) := by
  obtain ⟨hcount, hstart, htotal⟩ := h.opened window rfl
  have hbound := h.bound
  by_cases hin : t ≤ now ∧ now < t + length
  · obtain ⟨hle, hfirst⟩ := htotal hin.2
    rw [if_pos hin]
    refine ⟨fun hlt => absurd hin.1 (not_le.mpr hlt), by omega, nofun, ?_⟩
    rintro window' hwindow
    obtain rfl := Option.some.inj hwindow
    refine ⟨hroom, hstart, fun _ => ⟨?_, fun hbefore => ?_⟩⟩
    · dsimp only
      omega
    · have hle' := hfirst hbefore
      dsimp only
      omega
  · rw [if_neg hin, Nat.add_zero]
    refine ⟨h.before, hbound, nofun, ?_⟩
    rintro window' hwindow
    obtain rfl := Option.some.inj hwindow
    refine ⟨hroom, hstart, fun hlt => ⟨?_, fun hbefore => ?_⟩⟩
    · have hle := (htotal hlt).1
      dsimp only
      omega
    · have hle := (htotal hlt).2 hbefore
      dsimp only
      omega

end Tally

end FixedWindow
