import Mathlib.Order.Lattice
import Mathlib.Tactic.Linarith
import Mathlib.Tactic.Ring

/-!
# Two parties that ping each other when they hear nothing

Two parties tick with one period, the second one an offset after the first. At its tick a party sends when
it has heard nothing for the interval; the other party hears that at once, and hearing is all it does: the
sender's own record of the other does not change. A party is lost when nothing was heard of it for the
timeout.

Sending puts off the other party's next send, so the two only keep hearing each other if a send cannot put
off the other's next tick: the interval is at most the time from each party's tick to the other's next one
(`healthy_iff`). Otherwise one party, once it has sent, sends at every tick and never hears anything.
-/

/-- The period of the ticks, the offset of the second party's, and the two times compared with. -/
structure Heartbeat where
  period : Int
  offset : Int
  interval : Int
  timeout : Int

namespace Heartbeat

/-- When each party last heard of the other. -/
structure Heard where
  first : Int
  second : Int

variable (h : Heartbeat)

def firstTick (now : Int) (s : Heard) : Heard := if h.interval ≤ now - s.first then { s with second := now } else s

def secondTick (now : Int) (s : Heard) : Heard := if h.interval ≤ now - s.second then { s with first := now } else s

/-- The time of the first party's tick in round `n`. -/
def time (start : Int) (n : Nat) : Int := start + h.period * n

/-- The state before round `n`. -/
def state (start : Int) (init : Heard) : Nat → Heard
  | 0 => init
  | n + 1 => h.secondTick (h.time start n + h.offset) (h.firstTick (h.time start n) (state start init n))

def Fresh (now : Int) (s : Heard) : Prop := now - s.first < h.timeout ∧ now - s.second < h.timeout

/-- Neither party is lost when either of them ticks in round `n`. -/
def Healthy (start : Int) (init : Heard) (n : Nat) : Prop :=
  h.Fresh (h.time start n) (h.state start init n) ∧
    h.Fresh (h.time start n + h.offset) (h.firstTick (h.time start n) (h.state start init n))

variable {h} {start : Int} {init : Heard}

theorem time_succ (n : Nat) : h.time start (n + 1) = h.time start n + h.period := by
  simp only [time]
  push_cast
  ring

@[simp] theorem first_firstTick (now : Int) (s : Heard) : (h.firstTick now s).first = s.first := by
  unfold firstTick
  split_ifs <;> rfl

theorem second_firstTick (h : Heartbeat) (now : Int) (s : Heard) :
    (h.firstTick now s).second = now ∨ (h.firstTick now s).second = s.second := by
  unfold firstTick
  split_ifs
  · exact Or.inl rfl
  · exact Or.inr rfl

@[simp] theorem second_secondTick (now : Int) (s : Heard) : (h.secondTick now s).second = s.second := by
  unfold secondTick
  split_ifs <;> rfl

theorem state_succ_first (n : Nat) : (h.state start init (n + 1)).first =
    if h.interval ≤ h.time start n + h.offset - (h.firstTick (h.time start n) (h.state start init n)).second then
      h.time start n + h.offset else (h.state start init n).first := by
  simp only [state, secondTick, firstTick]
  split_ifs <;> rfl

theorem state_succ_second (n : Nat) : (h.state start init (n + 1)).second =
    if h.interval ≤ h.time start n - (h.state start init n).first then h.time start n
    else (h.state start init n).second := by
  simp only [state, secondTick, firstTick]
  split_ifs <;> rfl

theorem exists_time_ge (hperiod : 0 < h.period) (start : Int) (i : Nat) (bound : Int) :
    ∃ n, i ≤ n ∧ bound ≤ h.time start n := by
  refine ⟨i + (bound - start).toNat, Nat.le_add_right _ _, ?_⟩
  have hle : bound - start ≤ ((bound - start).toNat : Int) := Int.self_le_toNat _
  have hmul : ((i + (bound - start).toNat : Nat) : Int) ≤ h.period * ((i + (bound - start).toNat : Nat) : Int) :=
    le_mul_of_one_le_left (Int.natCast_nonneg _) hperiod
  simp only [time]
  push_cast at hmul ⊢
  linarith

section Silence

variable {heard : Heard → Int} (hperiod : 0 < h.period) (hfresh : ∀ now s, h.Fresh now s → now - heard s < h.timeout)
include hperiod hfresh

theorem not_healthy_of_constant {i : Nat}
    (hconst : ∀ n, i ≤ n → heard (h.state start init n) = heard (h.state start init i)) :
    ¬∀ n, h.Healthy start init n := by
  intro hhealthy
  obtain ⟨n, hn, hbound⟩ := exists_time_ge hperiod start i (heard (h.state start init i) + h.timeout)
  have hage := hfresh _ _ (hhealthy n).1
  rw [hconst n hn] at hage
  linarith

theorem exists_sends {Sends : Nat → Prop}
    (hsilent : ∀ n, ¬Sends n → heard (h.state start init (n + 1)) = heard (h.state start init n))
    (hhealthy : ∀ n, h.Healthy start init n) : ∃ n, Sends n := by
  by_contra hnone
  refine not_healthy_of_constant (i := 0) hperiod hfresh (fun n _ => ?_) hhealthy
  induction n with
  | zero => rfl
  | succ n ih => exact (hsilent n fun hsends => hnone ⟨n, hsends⟩).trans (ih (Nat.zero_le n))

end Silence

/-- The first party sends in round `n`. -/
def FirstSends (h : Heartbeat) (start : Int) (init : Heard) (n : Nat) : Prop :=
  h.interval ≤ h.time start n - (h.state start init n).first

/-- The second party sends in round `n`. -/
def SecondSends (h : Heartbeat) (start : Int) (init : Heard) (n : Nat) : Prop :=
  h.interval ≤ h.time start n + h.offset - (h.firstTick (h.time start n) (h.state start init n)).second

theorem second_firstTick_of_sends {n : Nat} (hsends : FirstSends h start init n) :
    (h.firstTick (h.time start n) (h.state start init n)).second = h.time start n := by
  unfold FirstSends at hsends
  rw [firstTick, if_pos hsends]

theorem second_firstTick_of_not_sends {n : Nat} (hsends : ¬FirstSends h start init n) :
    (h.firstTick (h.time start n) (h.state start init n)).second = (h.state start init n).second := by
  unfold FirstSends at hsends
  rw [firstTick, if_neg hsends]

/-- With an offset below the interval, a send of the first party silences the second one, so that the first
party sends again. -/
theorem firstSends_forever (hperiod : 0 < h.period) (hoffset : h.offset < h.interval) {i : Nat}
    (hsends : FirstSends h start init i) (k : Nat) :
    FirstSends h start init (i + k) ∧ (h.state start init (i + k)).first = (h.state start init i).first := by
  induction k with
  | zero => exact ⟨hsends, rfl⟩
  | succ k ih =>
    obtain ⟨hsends, hconst⟩ := ih
    have hkept : (h.state start init (i + k + 1)).first = (h.state start init (i + k)).first := by
      rw [state_succ_first, second_firstTick_of_sends hsends, if_neg (by linarith)]
    refine ⟨?_, hkept.trans hconst⟩
    show h.interval ≤ h.time start (i + k + 1) - (h.state start init (i + k + 1)).first
    rw [hkept, time_succ]
    unfold FirstSends at hsends
    linarith

/-- With less than the interval from the second party's tick to the first's next one, a send of the second
party silences the first one. -/
theorem secondSends_forever (hperiod : 0 < h.period) (hoffset : h.period - h.offset < h.interval) {i : Nat}
    (hsends : SecondSends h start init i) (k : Nat) :
    SecondSends h start init (i + k) ∧
      (h.state start init (i + k + 1)).second = (h.state start init (i + 1)).second := by
  induction k with
  | zero => exact ⟨hsends, rfl⟩
  | succ k ih =>
    obtain ⟨hsends, hconst⟩ := ih
    have hheard : (h.state start init (i + k + 1)).first = h.time start (i + k) + h.offset := by
      rw [state_succ_first]
      exact if_pos hsends
    have hsilent : ¬FirstSends h start init (i + k + 1) := by
      unfold FirstSends
      rw [hheard, time_succ]
      linarith
    have hkept : (h.state start init (i + k + 1 + 1)).second = (h.state start init (i + k + 1)).second := by
      rw [state_succ_second]
      exact if_neg hsilent
    refine ⟨?_, hkept.trans hconst⟩
    -- what the second party heard is at least as old as in the round before
    have hold : (h.state start init (i + k + 1)).second =
        (h.firstTick (h.time start (i + k)) (h.state start init (i + k))).second := second_secondTick _ _
    unfold SecondSends at hsends
    show h.interval ≤ h.time start (i + k + 1) + h.offset -
      (h.firstTick (h.time start (i + k + 1)) (h.state start init (i + k + 1))).second
    rw [second_firstTick_of_not_sends hsilent, hold, time_succ]
    linarith

theorem exists_firstSends (hperiod : 0 < h.period) (hhealthy : ∀ n, h.Healthy start init n) :
    ∃ n, FirstSends h start init n :=
  exists_sends hperiod (fun _ _ hfresh => hfresh.2) (fun n hsilent => (state_succ_second n).trans (if_neg hsilent))
    hhealthy

theorem exists_secondSends (hperiod : 0 < h.period) (hhealthy : ∀ n, h.Healthy start init n) :
    ∃ n, SecondSends h start init n :=
  exists_sends hperiod (fun _ _ hfresh => hfresh.1) (fun n hsilent => (state_succ_first n).trans (if_neg hsilent))
    hhealthy

/-- Where neither send can put off the other party's next one, both parties send at every tick from the
second party's first tick on. -/
theorem state_of_le (h₁ : h.interval ≤ h.offset) (h₂ : h.interval ≤ h.period - h.offset)
    (hinit : init.second ≤ start) (n : Nat) :
    (h.state start init (n + 1)).first = h.time start n + h.offset ∧
      (h.state start init (n + 1)).second ≤ h.time start n ∧
      (n ≠ 0 → (h.state start init (n + 1)).second = h.time start n) := by
  induction n with
  | zero =>
    have hzero : h.time start 0 = start := by simp [time]
    have hle : (h.firstTick (h.time start 0) (h.state start init 0)).second ≤ h.time start 0 := by
      rcases h.second_firstTick (h.time start 0) (h.state start init 0) with heq | heq <;> rw [heq]
      rw [hzero]
      exact hinit
    refine ⟨?_, (second_secondTick _ _).le.trans hle, fun hne => absurd rfl hne⟩
    rw [state_succ_first, if_pos (by linarith)]
  | succ n ih =>
    have hsends : FirstSends h start init (n + 1) := by
      unfold FirstSends
      rw [ih.1, time_succ]
      linarith
    have hsecond : (h.state start init (n + 1 + 1)).second = h.time start (n + 1) := by
      rw [state_succ_second]
      exact if_pos hsends
    refine ⟨?_, hsecond.le, fun _ => hsecond⟩
    rw [state_succ_first, second_firstTick_of_sends hsends, if_pos (by linarith)]

theorem firstSends_of_le (h₁ : h.interval ≤ h.offset) (h₂ : h.interval ≤ h.period - h.offset)
    (hinit : init.second ≤ start) (n : Nat) : FirstSends h start init (n + 1) := by
  unfold FirstSends
  rw [(state_of_le h₁ h₂ hinit n).1, time_succ]
  linarith

/-- Two parties that last heard of each other within a period before the first tick never lose each other
exactly if the interval is at most the time from each party's tick to the other's next one. -/
theorem healthy_iff (hperiod : 0 < h.period) (hoffset : 0 ≤ h.offset) (hlt : h.offset < h.period)
    (hinterval : 0 ≤ h.interval) (htimeout : h.interval + 2 * h.period < h.timeout)
    (hfirst : start - h.period ≤ init.first) (hsecond : init.second ≤ start)
    (hsecond' : start - h.period ≤ init.second) :
    (∀ n, h.Healthy start init n) ↔ h.interval ≤ h.offset ∧ h.interval ≤ h.period - h.offset := by
  constructor
  · intro hhealthy
    constructor
    · by_contra hlow
      obtain ⟨i, hsends⟩ := exists_firstSends hperiod hhealthy
      refine not_healthy_of_constant (i := i) hperiod (fun _ _ hfresh => hfresh.1) (fun n hn => ?_) hhealthy
      obtain ⟨k, rfl⟩ := Nat.exists_eq_add_of_le hn
      exact (firstSends_forever hperiod (not_le.mp hlow) hsends k).2
    · by_contra hlow
      obtain ⟨i, hsends⟩ := exists_secondSends hperiod hhealthy
      refine not_healthy_of_constant (i := i + 1) hperiod (fun _ _ hfresh => hfresh.2) (fun n hn => ?_) hhealthy
      obtain ⟨k, rfl⟩ := Nat.exists_eq_add_of_le hn
      rw [Nat.add_right_comm]
      exact (secondSends_forever hperiod (not_le.mp hlow) hsends k).2
  · rintro ⟨h₁, h₂⟩ n
    have hzero : h.time start 0 = start := by simp [time]
    have hstate : h.state start init 0 = init := rfl
    cases n with
    | zero =>
      rw [Healthy, hzero, hstate]
      refine ⟨⟨by linarith, by linarith⟩, by rw [first_firstTick]; linarith, ?_⟩
      rcases h.second_firstTick start init with heq | heq <;> rw [heq] <;> linarith
    | succ n =>
      obtain ⟨hheard, -, hheard'⟩ := state_of_le h₁ h₂ hsecond n
      have hsends := firstSends_of_le h₁ h₂ hsecond n
      have hage : h.time start (n + 1) - (h.state start init (n + 1)).first = h.period - h.offset := by
        rw [hheard, time_succ]
        ring
      have hage' : h.time start (n + 1) - (h.state start init (n + 1)).second ≤ 2 * h.period := by
        cases n with
        | zero =>
          rw [state, second_secondTick, hzero, hstate, time_succ, hzero]
          rcases h.second_firstTick start init with heq | heq <;> rw [heq] <;> linarith
        | succ n =>
          rw [hheard' (Nat.succ_ne_zero n), time_succ (n + 1)]
          linarith
      refine ⟨⟨by linarith, by linarith⟩, ?_, ?_⟩
      · rw [first_firstTick]
        linarith
      · rw [second_firstTick_of_sends hsends]
        linarith

end Heartbeat
