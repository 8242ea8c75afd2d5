import Mathlib.Algebra.BigOperators.Group.List.Basic
import Mathlib.Algebra.GroupWithZero.Nat
import Mathlib.Data.List.Nodup
import Mathlib.Logic.Function.Basic

/-!
# A queue that serves its users in turn

Every user has a lane of waiting items. The users with something in their lane stand in one row; the first
of them is served one item and goes to the end of the row if it has more. `total` weighs everything that
waits. `Serves` lists the users served over any number of operations: a user who stands in the row is served
before those behind it (`Ahead.serves`), and sees nobody else served twice (`Serves.count_le_one`).
-/

structure FairQueue (K α : Type) where
  lane : K → List α := fun _ => []
  turn : List K := []
  nodup : turn.Nodup := by exact List.nodup_nil
  mem_turn : ∀ k, k ∈ turn ↔ lane k ≠ [] := by simp

namespace FairQueue

variable {K α : Type}

instance : Inhabited (FairQueue K α) := ⟨{}⟩

theorem lane_eq_nil {q : FairQueue K α} (h : q.turn = []) (k : K) : q.lane k = [] := by
  by_contra hne
  have hmem := (q.mem_turn k).mpr hne
  rw [h] at hmem
  exact List.not_mem_nil hmem

/-- What everything that waits weighs. -/
def total (weight : α → Nat) (q : FairQueue K α) : Nat :=
  (q.turn.map fun k => ((q.lane k).map weight).sum).sum

theorem total_one_eq_zero_iff (q : FairQueue K α) : q.total (fun _ => 1) = 0 ↔ q.turn = [] := by
  constructor
  · intro h
    cases hturn : q.turn with
    | nil => rfl
    | cons k rest =>
      have hne : q.lane k ≠ [] := (q.mem_turn k).mp (by rw [hturn]; exact List.mem_cons_self)
      have hpos := List.length_pos_of_ne_nil hne
      have hsum : ((q.lane k).map fun _ => 1).sum = (q.lane k).length := by simp
      simp only [total, hturn, List.map_cons, List.sum_cons, hsum] at h
      omega
  · intro h
    simp [total, h]

variable [DecidableEq K]

def push (q : FairQueue K α) (k : K) (a : α) : FairQueue K α where
  lane := Function.update q.lane k (q.lane k ++ [a])
  turn := if (q.lane k).isEmpty then q.turn ++ [k] else q.turn
  nodup := by
    split_ifs with hempty
    · have hnot : k ∉ q.turn := fun h => (q.mem_turn k).mp h (List.isEmpty_iff.mp hempty)
      exact List.nodup_append.mpr ⟨q.nodup, List.nodup_singleton k, by
        rintro a ha b hb rfl
        exact hnot (List.mem_singleton.mp hb ▸ ha)⟩
    · exact q.nodup
  mem_turn := by
    intro k'
    by_cases hk : k' = k
    · subst hk
      split_ifs with hempty
      · simp
      · simpa [q.mem_turn k'] using hempty
    · split_ifs with hempty
      · simp [hk, q.mem_turn k']
      · simp [hk, q.mem_turn k']

/-- The next item, with its user. -/
def pop (q : FairQueue K α) : Option ((K × α) × FairQueue K α) :=
  match hturn : q.turn with
  | [] => none
  | k :: rest =>
    match hlane : q.lane k with
    | [] => none
    | a :: items =>
      some ((k, a),
        { lane := Function.update q.lane k items
          turn := if items.isEmpty then rest else rest ++ [k]
          nodup := by
            have hnodup := q.nodup
            rw [hturn, List.nodup_cons] at hnodup
            split_ifs
            · exact hnodup.2
            · exact List.nodup_append.mpr ⟨hnodup.2, List.nodup_singleton k, by
                rintro a ha b hb rfl
                exact hnodup.1 (List.mem_singleton.mp hb ▸ ha)⟩
          mem_turn := by
            intro k'
            have hnodup := q.nodup
            rw [hturn, List.nodup_cons] at hnodup
            have hmem := q.mem_turn k'
            rw [hturn, List.mem_cons] at hmem
            by_cases hk : k' = k
            · subst hk
              split_ifs with hempty
              · simpa [hnodup.1] using hempty
              · simpa using hempty
            · rw [Function.update_of_ne hk, ← hmem]
              split_ifs <;> simp [hk] })

/-- Serving: nothing waits, or the first user of the row gets the first item of its lane. -/
theorem pop_cases (q : FairQueue K α) :
    (q.turn = [] ∧ q.pop = none) ∨
    ∃ k rest a items q', q.turn = k :: rest ∧ q.lane k = a :: items ∧ q.pop = some ((k, a), q') ∧
      q'.lane = Function.update q.lane k items ∧ q'.turn = if items.isEmpty then rest else rest ++ [k] := by
  unfold pop
  split
  · rename_i hturn
    exact Or.inl ⟨hturn, rfl⟩
  · rename_i k rest hturn
    have hne : q.lane k ≠ [] := (q.mem_turn k).mp (by rw [hturn]; exact List.mem_cons_self)
    split
    · rename_i hlane
      exact absurd hlane hne
    · rename_i a items hlane
      exact Or.inr ⟨k, rest, a, items, _, hturn, hlane, rfl, rfl, rfl⟩

theorem pop_eq_none_iff (q : FairQueue K α) : q.pop = none ↔ q.turn = [] := by
  rcases q.pop_cases with ⟨hturn, hpop⟩ | ⟨k, rest, a, items, q', hturn, -, hpop, -⟩
  · simp [hturn, hpop]
  · simp [hturn, hpop]

theorem lane_push (q : FairQueue K α) (k : K) (a : α) (k' : K) :
    (q.push k a).lane k' = q.lane k' ++ if k = k' then [a] else [] := by
  by_cases hk : k' = k
  · subst hk
    simp [push]
  · simp [push, hk, Ne.symm hk]

theorem lane_pop {q q' : FairQueue K α} {k : K} {a : α} (h : q.pop = some ((k, a), q')) (k' : K) :
    q.lane k' = (if k = k' then [a] else []) ++ q'.lane k' := by
  rcases q.pop_cases with ⟨-, hpop⟩ | ⟨user, rest, item, items, q'', -, hlane, hpop, hlane', -⟩
  · simp [hpop] at h
  · obtain ⟨⟨rfl, rfl⟩, rfl⟩ : (user = k ∧ item = a) ∧ q'' = q' := by simpa [hpop] using h
    by_cases hk : k' = user
    · subst hk
      simp [hlane, hlane']
    · simp [hlane', hk, Ne.symm hk]

theorem map_sum_update {weight : α → Nat} {lane : K → List α} {users : List K} {k : K} (hk : k ∉ users)
    (items : List α) :
    (users.map fun k' => ((Function.update lane k items k').map weight).sum)
      = users.map fun k' => ((lane k').map weight).sum := by
  apply List.map_congr_left
  intro k' hk'
  rw [Function.update_of_ne (by rintro rfl; exact hk hk')]

theorem total_push (weight : α → Nat) (q : FairQueue K α) (k : K) (a : α) :
    (q.push k a).total weight = q.total weight + weight a := by
  show ((if (q.lane k).isEmpty then q.turn ++ [k] else q.turn).map fun k' =>
    ((Function.update q.lane k (q.lane k ++ [a]) k').map weight).sum).sum = _
  split_ifs with hempty
  · have hnil := List.isEmpty_iff.mp hempty
    have hnot : k ∉ q.turn := fun h => (q.mem_turn k).mp h hnil
    rw [List.map_append, map_sum_update hnot, List.sum_append]
    simp [hnil, total]
  · -- the user's place in the row splits the sum
    obtain ⟨front, back, hturn⟩ := List.append_of_mem ((q.mem_turn k).mpr (by simpa using hempty))
    have hnodup := q.nodup
    rw [hturn, List.nodup_append, List.nodup_cons] at hnodup
    have hfront : k ∉ front := fun h => hnodup.2.2 k h k List.mem_cons_self rfl
    rw [total, hturn]
    simp only [List.map_append, List.map_cons, List.sum_append, List.sum_cons, map_sum_update hfront,
      map_sum_update hnodup.2.1.1, Function.update_self, List.map_nil, List.sum_nil]
    omega

theorem total_pop (weight : α → Nat) {q q' : FairQueue K α} {k : K} {a : α} (h : q.pop = some ((k, a), q')) :
    q.total weight = weight a + q'.total weight := by
  rcases q.pop_cases with ⟨-, hpop⟩ | ⟨k', rest, a', items, q'', hturn, hlane, hpop, hlane', hturn'⟩
  · simp [hpop] at h
  · obtain ⟨⟨rfl, rfl⟩, rfl⟩ : (k' = k ∧ a' = a) ∧ q'' = q' := by simpa [hpop] using h
    have hnodup := q.nodup
    rw [hturn, List.nodup_cons] at hnodup
    rw [total, total, hlane', hturn', hturn]
    simp only [List.map_cons, List.sum_cons, hlane]
    split_ifs with hempty
    · simp [map_sum_update hnodup.1, List.isEmpty_iff.mp hempty]
    · simp only [List.map_append, List.map_cons, List.map_nil, List.sum_append, List.sum_cons, List.sum_nil,
        map_sum_update hnodup.1, Function.update_self]
      omega

/-! ### Turns -/

/-- `k` stands in the row, and `p` not before it. -/
def Ahead (q : FairQueue K α) (k p : K) : Prop := ∃ front back, q.turn = front ++ k :: back ∧ p ∉ front

/-- Any number of operations, with the users they served in order. -/
inductive Serves : FairQueue K α → List K → FairQueue K α → Prop
  | done (q : FairQueue K α) : Serves q [] q
  | push {q q' : FairQueue K α} {served : List K} (k : K) (a : α) (h : Serves (q.push k a) served q') :
      Serves q served q'
  | pop {q q₁ q' : FairQueue K α} {served : List K} {k : K} {a : α} (hpop : q.pop = some ((k, a), q₁))
      (h : Serves q₁ served q') : Serves q (k :: served) q'

variable {q q₁ q' q'' : FairQueue K α} {k p : K} {a : α} {served served' : List K}

theorem Serves.trans (h : Serves q served q') (h' : Serves q' served' q'') : Serves q (served ++ served') q'' := by
  induction h with
  | done q => exact h'
  | push k a h ih => exact .push k a (ih h')
  | pop hpop h ih => exact .pop hpop (ih h')

theorem turn_push (q : FairQueue K α) (k : K) (a : α) : ∃ new, (q.push k a).turn = q.turn ++ new := by
  by_cases hempty : (q.lane k).isEmpty
  · exact ⟨[k], by simp [push, hempty]⟩
  · exact ⟨[], by simp [push, hempty]⟩

theorem turn_pop (h : q.pop = some ((k, a), q')) :
    ∃ rest back, q.turn = k :: rest ∧ q'.turn = rest ++ back ∧ (back = [k] ∨ back = []) ∧
      (q'.lane k ≠ [] → back = [k]) := by
  rcases q.pop_cases with ⟨-, hpop⟩ | ⟨user, rest, item, items, q'', hturn, -, hpop, hlane, hturn'⟩
  · simp [hpop] at h
  · obtain ⟨⟨rfl, rfl⟩, rfl⟩ : (user = k ∧ item = a) ∧ q'' = q' := by simpa [hpop] using h
    cases items with
    | nil => exact ⟨rest, [], hturn, by simpa using hturn', Or.inr rfl, fun hne => absurd (by simp [hlane]) hne⟩
    | cons item' items => exact ⟨rest, [user], hturn, by simpa using hturn', Or.inl rfl, fun _ => rfl⟩

omit [DecidableEq K] in
theorem ahead_of_notMem (hp : p ∈ q.turn) (hk : k ∉ q.turn) : q.Ahead p k := by
  obtain ⟨front, back, hturn⟩ := List.append_of_mem hp
  refine ⟨front, back, hturn, fun hfront => hk ?_⟩
  rw [hturn]
  exact List.mem_append_left _ hfront

theorem ahead_of_pop (hpop : q.pop = some ((p, a), q₁)) (hk : k ∈ q.turn) (hne : k ≠ p) : q₁.Ahead k p := by
  obtain ⟨rest, back, hturn, hturn₁, -⟩ := turn_pop hpop
  have hnodup := q.nodup
  rw [hturn, List.nodup_cons] at hnodup
  have hrest : k ∈ rest := by
    rw [hturn] at hk
    exact (List.mem_cons.mp hk).resolve_left hne
  obtain ⟨front, behind, rfl⟩ := List.append_of_mem hrest
  refine ⟨front, behind ++ back, by simp [hturn₁], fun hfront => hnodup.1 ?_⟩
  exact List.mem_append_left _ hfront

theorem Ahead.push (h : q.Ahead k p) (j : K) (a : α) : (q.push j a).Ahead k p := by
  obtain ⟨front, back, hturn, hp⟩ := h
  obtain ⟨new, hnew⟩ := q.turn_push j a
  exact ⟨front, back ++ new, by simp [hnew, hturn], hp⟩

theorem Ahead.pop {j : K} (h : q.Ahead k p) (hpop : q.pop = some ((j, a), q₁)) : j = k ∨ (j ≠ p ∧ q₁.Ahead k p) := by
  obtain ⟨front, behind, hturn, hp⟩ := h
  obtain ⟨rest, back, hturn', hturn₁, -⟩ := turn_pop hpop
  rw [hturn'] at hturn
  cases front with
  | nil => exact Or.inl (List.cons.inj hturn).1
  | cons first front =>
    obtain ⟨rfl, rfl⟩ := List.cons.inj hturn
    simp only [List.mem_cons, not_or] at hp
    exact Or.inr ⟨Ne.symm hp.1, front, behind ++ back, by simp [hturn₁], hp.2⟩

theorem Ahead.serves (h : q.Ahead k p) (hserves : Serves q served q') (hk : k ∉ served) :
    p ∉ served ∧ q'.Ahead k p := by
  induction hserves with
  | done q => exact ⟨List.not_mem_nil, h⟩
  | push j a hserves ih => exact ih (h.push j a) hk
  | pop hpop hserves ih =>
    simp only [List.mem_cons, not_or] at hk ⊢
    obtain ⟨hj, hnext⟩ := (h.pop hpop).resolve_left (Ne.symm hk.1)
    obtain ⟨hp, hlast⟩ := ih hnext hk.2
    exact ⟨⟨Ne.symm hj, hp⟩, hlast⟩

theorem Ahead.mem_of_pop (h : q.Ahead k p) (hne : k ≠ p) (hserves : Serves q served q')
    (hpop : q'.pop = some ((p, a), q'')) : k ∈ served := by
  by_contra hk
  rcases (h.serves hserves hk).2.pop hpop with heq | ⟨hp, -⟩
  · exact hne heq.symm
  · exact hp rfl

/-- While a user waits in the row, nobody else is served twice, and nobody who joined later at all. -/
theorem Serves.count_le_one (hserves : Serves q served q') (hp : p ∈ q.turn)
    (hwaits : p ∉ served) (hne : k ≠ p) : served.count k ≤ 1 ∧ (k ∉ q.turn → served.count k = 0) := by
  refine ⟨?_, fun hk => List.count_eq_zero.mpr ((ahead_of_notMem hp hk).serves hserves hwaits).1⟩
  induction hserves with
  | done q => simp
  | @push q q' served j a hserves ih =>
    obtain ⟨new, hnew⟩ := q.turn_push j a
    exact ih (by rw [hnew]; exact List.mem_append_left _ hp) hwaits
  | @pop q q₁ q' served j a hpop hserves ih =>
    simp only [List.mem_cons, not_or] at hwaits
    obtain ⟨rest, back, hturn, hturn₁, -⟩ := turn_pop hpop
    have hrest : p ∈ rest := by
      rw [hturn] at hp
      exact (List.mem_cons.mp hp).resolve_left hwaits.1
    by_cases hj : j = k
    · -- served now, so behind `p` from now on
      subst hj
      have hahead := (ahead_of_pop hpop hp (Ne.symm hne)).serves hserves hwaits.2
      exact Nat.le_of_eq (by rw [List.count_cons_self, List.count_eq_zero.mpr hahead.1])
    · rw [List.count_cons_of_ne hj]
      exact ih (by rw [hturn₁]; exact List.mem_append_left _ hrest) hwaits.2

end FairQueue
