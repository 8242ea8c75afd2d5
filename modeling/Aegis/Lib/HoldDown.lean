import Aegis.Lib.Run
import Mathlib.Order.Lattice

/-!
# Hold-down

Something that fails is held down for a while: it is usable again only after a success at or after the
deadline of its last failure. Reports of failures and successes come with a time, and `deadline` says until
when a failure holds. `Health.run` follows the reports. A run from a failure is held as long as all successes
come before that failure's deadline (`held_run`), and the report that ends the hold-down is a success at or
after the deadline of the last failure before it (`recovered_by`).
-/

namespace HoldDown

variable {T : Type} [LinearOrder T]

inductive Report (T : Type) where
  | failure (now : T)
  | success (now : T)
  /-- Nothing is reported. -/
  | none

inductive Health (T : Type) where
  | usable
  | held (deadline : T)

namespace Health

def step (deadline : T → T) : Health T → Report T → Health T
  | _, .failure now => .held (deadline now)
  | .held d, .success now => if d ≤ now then .usable else .held d
  | .usable, .success _ => .usable
  | health, .none => health

def run (deadline : T → T) (health : Health T) (reports : List (Report T)) : Health T :=
  reports.foldl (step deadline) health

end Health

/-- The time of the last failure reported, after one at `now`. -/
def lastFailure (now : T) (reports : List (Report T)) : T :=
  reports.foldl (fun last report => match report with
    | .failure now => now
    | _ => last) now

variable {deadline : T → T} {now : T} {reports : List (Report T)}

theorem deadline_run {d : T} (h : (Health.held (deadline now)).run deadline reports = .held d) :
    d = deadline (lastFailure now reports) := by
  induction reports using List.reverseRecOn generalizing d with
  | nil =>
    cases h
    rfl
  | append_singleton reports report ih =>
    unfold Health.run at h ih
    unfold lastFailure at ih ⊢
    rw [List.foldl_append, List.foldl_cons, List.foldl_nil] at h ⊢
    cases report with
    | failure later =>
      cases h
      rfl
    | none => exact ih h
    | success later =>
      generalize hhealth : reports.foldl (Health.step deadline) (.held (deadline now)) = health at h ih
      cases health with
      | usable => cases h
      | held d' =>
        simp only [Health.step] at h
        split_ifs at h
        cases h
        exact ih rfl

theorem recovered_by {report : Report T} (hheld : (Health.held (deadline now)).run deadline reports ≠ .usable)
    (h : (Health.held (deadline now)).run deadline (reports ++ [report]) = .usable) :
    ∃ later, report = .success later ∧ deadline (lastFailure now reports) ≤ later := by
  have hlast := @deadline_run T _ deadline now reports
  unfold Health.run at h hheld hlast
  rw [List.foldl_append, List.foldl_cons, List.foldl_nil] at h
  generalize reports.foldl (Health.step deadline) (.held (deadline now)) = health at h hheld hlast
  cases report with
  | failure later => cases h
  | none => exact absurd h hheld
  | success later =>
    cases health with
    | usable => exact absurd rfl hheld
    | held d =>
      simp only [Health.step] at h
      split_ifs at h with hdeadline
      rw [← hlast rfl]
      exact ⟨later, rfl, hdeadline⟩

theorem held_run (hmono : ∀ first second, first ≤ second → deadline first ≤ deadline second)
    (hsuccess : ∀ later, .success later ∈ reports → later < deadline now)
    (hfailure : ∀ later, .failure later ∈ reports → now ≤ later) :
    (Health.held (deadline now)).run deadline reports ≠ .usable := by
  have hinv : ∃ d, (Health.held (deadline now)).run deadline reports = .held d ∧ deadline now ≤ d := by
    refine Run.invariant_of_mem (fun health : Health T => ∃ d, health = .held d ∧ deadline now ≤ d) ?_
      ⟨_, rfl, le_refl _⟩
    rintro _ report hreport ⟨d, rfl, hd⟩
    cases report with
    | failure later => exact ⟨_, rfl, hmono _ _ (hfailure later hreport)⟩
    | none => exact ⟨d, rfl, hd⟩
    | success later =>
      have hearly : ¬d ≤ later := not_le.mpr ((hsuccess later hreport).trans_le hd)
      exact ⟨d, by simp [Health.step, hearly], hd⟩
  obtain ⟨d, heq, -⟩ := hinv
  rw [heq]
  intro h
  cases h

end HoldDown
