import Mathlib.Data.List.Induction

/-!
# Runs of a step function

A run folds a step function over a list of actions. `Along step ok s actions` says that every action of
the run from `s` meets `ok` in the state it is taken from, and `Along.invariant` is the induction over
such runs. `record` turns a step with outputs into one whose state also holds the outputs so far, so the
same rule serves properties of traces.
-/

namespace Run

variable {σ α ε : Type}

/-- Every action of the run from `s` meets `ok` in the state it is taken from. -/
def Along (step : σ → α → σ) (ok : σ → α → Prop) : σ → List α → Prop
  | _, [] => True
  | s, a :: rest => ok s a ∧ Along step ok (step s a) rest

instance Along.decidable (step : σ → α → σ) (ok : σ → α → Prop) [∀ s a, Decidable (ok s a)] :
    ∀ s actions, Decidable (Along step ok s actions)
  | _, [] => .isTrue trivial
  | s, a :: rest =>
    have := Along.decidable step ok (step s a) rest
    inferInstanceAs (Decidable (ok s a ∧ Along step ok (step s a) rest))

variable {step : σ → α → σ} {actions : List α} {s : σ} {ok : σ → α → Prop}

/-- What holds at the start and is kept by every admitted step holds at the end of the run. -/
theorem Along.invariant (Inv : σ → Prop) (hstep : ∀ s a, Inv s → ok s a → Inv (step s a)) (hinit : Inv s)
    (hrun : Along step ok s actions) : Inv (actions.foldl step s) := by
  induction actions generalizing s with
  | nil => exact hinit
  | cons a rest ih => exact ih (hstep s a hinit hrun.1) hrun.2

theorem Along.append {first rest : List α} (hfirst : Along step ok s first)
    (hrest : Along step ok (first.foldl step s) rest) : Along step ok s (first ++ rest) := by
  induction first generalizing s with
  | nil => exact hrest
  | cons a first ih => exact ⟨hfirst.1, ih hfirst.2 hrest⟩

theorem Along.of_append {first rest : List α} {a : α}
    (h : Along step ok s (first ++ a :: rest)) : ok (first.foldl step s) a := by
  induction first generalizing s with
  | nil => exact h.1
  | cons b first ih => exact ih h.2

theorem Along.of_append_left {first rest : List α} (h : Along step ok s (first ++ rest)) : Along step ok s first := by
  induction first generalizing s with
  | nil => trivial
  | cons a first ih => exact ⟨h.1, ih h.2⟩

theorem Along.forall_mem {ok : α → Prop} (h : Along step (fun _ a => ok a) s actions) : ∀ a ∈ actions, ok a := by
  induction actions generalizing s with
  | nil => exact List.forall_mem_nil _
  | cons a rest ih => exact List.forall_mem_cons.mpr ⟨h.1, ih h.2⟩

theorem invariant (Inv : σ → Prop) (hstep : ∀ s a, Inv s → Inv (step s a)) (hinit : Inv s)
    (actions : List α) : Inv (actions.foldl step s) := by
  induction actions generalizing s with
  | nil => exact hinit
  | cons a rest ih => exact ih (hstep s a hinit)

theorem invariant_of_mem (Inv : σ → Prop) (hstep : ∀ s, ∀ a ∈ actions, Inv s → Inv (step s a)) (hinit : Inv s) :
    Inv (actions.foldl step s) := by
  induction actions generalizing s with
  | nil => exact hinit
  | cons a rest ih =>
    exact ih (fun s b hb => hstep s b (List.mem_cons_of_mem _ hb)) (hstep s a List.mem_cons_self hinit)

/-- What one action of the run brings about, and no other undoes, holds at the end. -/
theorem reaches (Inv Goal : σ → Prop) {a : α} (ha : a ∈ actions) (hinv : ∀ s, ∀ b ∈ actions, Inv s → Inv (step s b))
    (hreach : ∀ s, Inv s → Goal (step s a)) (hkeep : ∀ s, ∀ b ∈ actions, Goal s → Goal (step s b)) (hinit : Inv s) :
    Goal (actions.foldl step s) := by
  obtain ⟨front, rest, rfl⟩ := List.append_of_mem ha
  rw [List.foldl_append, List.foldl_cons]
  refine invariant_of_mem Goal (fun s b hb => hkeep s b (by simp [hb])) (hreach _ ?_)
  exact invariant_of_mem Inv (fun s b hb => hinv s b (by simp [hb])) hinit

/-- One more action of some kind extends a run of such actions. -/
theorem exists_foldl_concat {ok : α → Prop} {s s' : σ} {a : α}
    (h : ∃ actions : List α, (∀ b ∈ actions, ok b) ∧ actions.foldl step s = s') (ha : ok a) :
    ∃ actions : List α, (∀ b ∈ actions, ok b) ∧ actions.foldl step s = step s' a := by
  obtain ⟨actions, hall, rfl⟩ := h
  refine ⟨actions ++ [a], ?_, by rw [List.foldl_append, List.foldl_cons, List.foldl_nil]⟩
  intro b hb
  rcases List.mem_append.mp hb with hb | hb
  · exact hall b hb
  · rwa [List.mem_singleton.mp hb]

/-- Something that holds at the end of a run was brought about by one of its steps and kept by every step
since, each in the state it is taken from. -/
theorem since {s₀ : σ} (Inv Holds : σ → Prop) (Makes Keeps : σ → α → Prop) (hinv : ∀ s a, Inv s → Inv (step s a))
    (hstep : ∀ s a, Inv s → Holds (step s a) → Makes s a ∨ (Holds s ∧ Keeps s a)) (hinit : Inv s₀) (hnot : ¬Holds s₀)
    (h : Holds (actions.foldl step s₀)) :
    ∃ front a back, actions = front ++ a :: back ∧ Makes (front.foldl step s₀) a ∧
      Along step Keeps (step (front.foldl step s₀) a) back := by
  -- induction from the end: the last step made it, or it held before and the last step kept it
  induction actions using List.reverseRecOn with
  | nil => exact absurd h hnot
  | append_singleton actions a ih =>
    rw [List.foldl_append, List.foldl_cons, List.foldl_nil] at h
    rcases hstep _ a (invariant Inv hinv hinit actions) h with hmakes | ⟨hholds, hkeeps⟩
    · exact ⟨actions, a, [], rfl, hmakes, trivial⟩
    · obtain ⟨front, b, back, rfl, hmakes, halong⟩ := ih hholds
      refine ⟨front, b, back ++ [a], by simp, hmakes, halong.append ⟨?_, trivial⟩⟩
      rwa [List.foldl_append, List.foldl_cons] at hkeeps

/-- Two systems that stay related step by step are related at the end of every run. -/
theorem simulation {τ : Type} {step' : τ → α → τ} (Rel : σ → τ → Prop)
    (hstep : ∀ s t a, Rel s t → Rel (step s a) (step' t a)) {t : τ} (hinit : Rel s t)
    (actions : List α) : Rel (actions.foldl step s) (actions.foldl step' t) := by
  induction actions generalizing s t with
  | nil => exact hinit
  | cons a rest ih => exact ih (hstep s t a hinit)

/-- The step that also collects the outputs, oldest first. -/
def record (step : σ → α → σ × List ε) : σ × List ε → α → σ × List ε :=
  fun s a => ((step s.1 a).1, s.2 ++ (step s.1 a).2)

theorem foldl_record_fst (step : σ → α → σ × List ε) (s : σ × List ε) (actions : List α) :
    (actions.foldl (record step) s).1 = actions.foldl (fun s a => (step s a).1) s.1 :=
  simulation (fun (s : σ × List ε) t => s.1 = t) (by rintro s _ a rfl; rfl) rfl actions

theorem mem_foldl_record {step : σ → α → σ × List ε} {e : ε} :
    e ∈ (actions.foldl (record step) (s, [])).2 ↔
      ∃ front a back, actions = front ++ a :: back ∧
        e ∈ (step (front.foldl (fun s a => (step s a).1) s) a).2 := by
  induction actions using List.reverseRecOn with
  | nil => simp
  | append_singleton actions a ih =>
    rw [List.foldl_append, List.foldl_cons, List.foldl_nil]
    simp only [record, List.mem_append, foldl_record_fst, ih]
    constructor
    · rintro (⟨front, b, back, rfl, he⟩ | he)
      · exact ⟨front, b, back ++ [a], by simp, he⟩
      · exact ⟨actions, a, [], rfl, he⟩
    · rintro ⟨front, b, back, heq, he⟩
      cases back using List.reverseRecOn with
      | nil =>
        obtain ⟨rfl, rfl⟩ := List.append_singleton_inj.mp heq
        exact Or.inr he
      | append_singleton back c =>
        rw [← List.cons_append, ← List.append_assoc] at heq
        obtain ⟨rfl, -⟩ := List.append_singleton_inj.mp heq
        exact Or.inl ⟨front, b, back, rfl, he⟩

end Run
