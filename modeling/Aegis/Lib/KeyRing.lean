import Mathlib.Algebra.Order.Group.Defs
import Mathlib.Algebra.Order.Monoid.Defs

/-!
# Keys that rotate when they are used

A ring holds the key in use, with the time it was drawn, and perhaps the one before it. Nothing happens while
no one uses the ring; a use after the interval draws a fresh key, and keeps the one it replaces only within two
intervals of its own draw. `Kept` is the invariant behind what a ring still holds, `Dated` the one behind what it
holds no longer.
-/

structure KeyRing (T K : Type) where
  current : Option (T × K) := none
  previous : Option K := none

namespace KeyRing

variable {T K : Type} [LinearOrder T]

def Holds (ring : KeyRing T K) (key : K) : Prop :=
  (∃ since, ring.current = some (since, key)) ∨ ring.previous = some key

/-- The key in use was drawn by `now` at the latest. -/
def UsedBy (ring : KeyRing T K) (now : T) : Prop := ∀ since key, ring.current = some (since, key) → since ≤ now

theorem UsedBy.later {ring : KeyRing T K} {now now' : T} (hused : ring.UsedBy now) (hle : now ≤ now') :
    ring.UsedBy now' :=
  fun since key hcurrent => (hused since key hcurrent).trans hle

variable [AddCommGroup T] {interval now now' since : T} {fresh key : K} {ring : KeyRing T K}

/-- A use at `now` draws a key: there is none, or the one in use is an interval old. -/
def Draws (interval now : T) (ring : KeyRing T K) : Prop :=
  ∀ since key, ring.current = some (since, key) → since + interval ≤ now

/-- The ring as a use at `now` leaves it, with `fresh` the key that is drawn if one is. -/
def rotate (interval now : T) (fresh : K) (ring : KeyRing T K) : KeyRing T K :=
  match ring.current with
  | none => ⟨some (now, fresh), none⟩
  | some (since, key) =>
    if now < since + interval then ring
    else ⟨some (now, fresh), if now < since + interval + interval then some key else none⟩

theorem rotate_cases (interval now : T) (fresh : K) (ring : KeyRing T K) :
    (∃ since key, ring.current = some (since, key) ∧ now < since + interval ∧ ring.rotate interval now fresh = ring) ∨
    ring.Draws interval now ∧ (ring.rotate interval now fresh).current = some (now, fresh) ∧
      ∀ old, (ring.rotate interval now fresh).previous = some old ↔
        ∃ since, ring.current = some (since, old) ∧ now < since + interval + interval := by
  obtain ⟨current, previous⟩ := ring
  cases current with
  | none => exact Or.inr ⟨nofun, rfl, fun old => ⟨nofun, fun ⟨_, h, _⟩ => nomatch h⟩⟩
  | some drawn =>
    obtain ⟨since, key⟩ := drawn
    by_cases hearly : now < since + interval
    · exact Or.inl ⟨since, key, rfl, hearly, if_pos hearly⟩
    refine Or.inr ⟨?_, by simp [rotate, hearly], fun old => ?_⟩
    · rintro _ _ ⟨rfl, rfl⟩
      exact not_lt.mp hearly
    · simp only [rotate, if_neg hearly, Option.ite_none_right_eq_some, Option.some.injEq, Prod.mk.injEq]
      constructor
      · rintro ⟨hkeep, rfl⟩
        exact ⟨since, ⟨rfl, rfl⟩, hkeep⟩
      · rintro ⟨_, ⟨rfl, rfl⟩, hkeep⟩
        exact ⟨hkeep, rfl⟩

/-- The key drawn at `since` is in use, or kept beside a key drawn at least an interval after it, or was drawn two
intervals ago. -/
def Kept (interval since now : T) (key : K) (ring : KeyRing T K) : Prop :=
  ring.current = some (since, key) ∨
  (∃ since' key', ring.current = some (since', key') ∧ since + interval ≤ since' ∧ ring.previous = some key) ∨
  since + interval + interval ≤ now

/-- If the key is in use it is the one drawn at `since`, and if it is kept then beside a key drawn within two
intervals after it. -/
def Dated (interval since : T) (key : K) (ring : KeyRing T K) : Prop :=
  (∀ since', ring.current = some (since', key) → since' = since) ∧
  (ring.previous = some key → ∃ since' key', ring.current = some (since', key') ∧ since' < since + interval + interval)

theorem Kept.holds (h : ring.Kept interval since now key) (hearly : now < since + interval + interval) :
    ring.Holds key := by
  rcases h with hcurrent | ⟨_, _, -, -, hprevious⟩ | hold
  · exact Or.inl ⟨since, hcurrent⟩
  · exact Or.inr hprevious
  · exact absurd hold (not_le.mpr hearly)

theorem Dated.rotate (h : ring.Dated interval since key) (hfresh : ring.Draws interval now → fresh ≠ key) :
    (ring.rotate interval now fresh).Dated interval since key := by
  rcases ring.rotate_cases interval now fresh with ⟨_, _, -, -, hsame⟩ | ⟨hdraws, hcurrent, hkept⟩
  · rwa [hsame]
  refine ⟨fun since' hcurrent' => ?_, fun hprevious => ?_⟩
  · exact absurd (Prod.mk.inj (Option.some.inj (hcurrent.symm.trans hcurrent'))).2 (hfresh hdraws)
  · obtain ⟨since', hbefore, hkeep⟩ := (hkept key).mp hprevious
    exact ⟨now, fresh, hcurrent, h.1 since' hbefore ▸ hkeep⟩

variable [IsOrderedAddMonoid T]

theorem rotate_current (fresh : K) (hpos : 0 < interval) (hused : ring.UsedBy now) :
    ∃ since key, (ring.rotate interval now fresh).current = some (since, key) ∧ since ≤ now ∧
      now < since + interval := by
  rcases ring.rotate_cases interval now fresh with ⟨since, key, hcurrent, hearly, hsame⟩ | ⟨-, hcurrent, -⟩
  · exact ⟨since, key, by rw [hsame, hcurrent], hused since key hcurrent, hearly⟩
  · exact ⟨now, fresh, hcurrent, le_refl _, lt_add_of_pos_right now hpos⟩

theorem Kept.rotate (fresh : K) (h : ring.Kept interval since now key) (hle : now ≤ now') :
    (ring.rotate interval now' fresh).Kept interval since now' key := by
  rcases ring.rotate_cases interval now' fresh with ⟨_, _, -, -, hsame⟩ | ⟨hdraws, hfresh, hkept⟩
  · rw [hsame]
    exact h.imp_right fun h => h.imp_right fun hold => hold.trans hle
  rcases h with hcurrent | ⟨since', key', hcurrent, hafter, -⟩ | hold
  · -- the key is replaced, and kept unless it is two intervals old
    by_cases hold : since + interval + interval ≤ now'
    · exact Or.inr (Or.inr hold)
    · have hstays := (hkept key).mpr ⟨since, hcurrent, not_le.mp hold⟩
      exact Or.inr (Or.inl ⟨now', fresh, hfresh, hdraws _ _ hcurrent, hstays⟩)
  · have hpassed : since + interval + interval ≤ since' + interval := by gcongr
    exact Or.inr (Or.inr (hpassed.trans (hdraws _ _ hcurrent)))
  · exact Or.inr (Or.inr (hold.trans hle))

theorem dated_of_current (hpos : 0 < interval) (hcurrent : ring.current = some (since, key)) :
    ring.Dated interval since key := by
  refine ⟨fun since' h => (Prod.mk.inj (Option.some.inj (h.symm.trans hcurrent))).1, fun _ => ?_⟩
  exact ⟨since, key, hcurrent, (lt_add_of_pos_right _ hpos).trans (lt_add_of_pos_right _ hpos)⟩

theorem Dated.not_holds (h : ring.Dated interval since key) {since' : T} {key' : K}
    (hcurrent : ring.current = some (since', key')) (hrecent : now < since' + interval) (hpos : 0 < interval)
    (hold : since + interval + interval + interval ≤ now) : ¬ring.Holds key := by
  have hlt : since + interval + interval < since' := lt_of_add_lt_add_right (hold.trans_lt hrecent)
  rintro (⟨drawn, hkey⟩ | hprevious)
  · obtain rfl := h.1 drawn hkey
    obtain ⟨rfl, -⟩ := Prod.mk.inj (Option.some.inj (hcurrent.symm.trans hkey))
    exact lt_asymm hlt ((lt_add_of_pos_right _ hpos).trans (lt_add_of_pos_right _ hpos))
  · obtain ⟨drawn, _, hkey, hwithin⟩ := h.2 hprevious
    obtain ⟨rfl, -⟩ := Prod.mk.inj (Option.some.inj (hcurrent.symm.trans hkey))
    exact lt_asymm hlt hwithin

end KeyRing
