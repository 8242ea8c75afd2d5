import Mathlib.Data.List.Basic

/-!
# Changing the first entry that passes a test

`updateFirst p f l` applies `f` to the first entry of `l` that passes `p`, the entry `l.find? p` returns, and
keeps everything else. What is true of the list afterwards only depends on what `f` does to that one entry.
-/

namespace List

variable {α β : Type} {p : α → Bool} {f : α → α} {l : List α}

def updateFirst (p : α → Bool) (f : α → α) : List α → List α
  | [] => []
  | a :: l => if p a then f a :: l else a :: updateFirst p f l

@[simp] theorem updateFirst_nil : updateFirst p f [] = [] := rfl

theorem updateFirst_cons_of_pos {a : α} (h : p a = true) : updateFirst p f (a :: l) = f a :: l := by
  simp [updateFirst, h]

theorem updateFirst_cons_of_neg {a : α} (h : p a = false) : updateFirst p f (a :: l) = a :: updateFirst p f l := by
  simp [updateFirst, h]

/-- The list stays if no entry passes; otherwise this is the list around the first entry that does. -/
theorem updateFirst_cases (p : α → Bool) (f : α → α) (l : List α) :
    (l.find? p = none ∧ updateFirst p f l = l) ∨
      ∃ front a behind, l.find? p = some a ∧ l = front ++ a :: behind ∧ (∀ b ∈ front, p b = false) ∧
        updateFirst p f l = front ++ f a :: behind := by
  induction l with
  | nil => exact Or.inl ⟨rfl, rfl⟩
  | cons b l ih =>
    cases hp : p b with
    | true => exact Or.inr ⟨[], b, l, by simp [hp], rfl, by simp, updateFirst_cons_of_pos hp⟩
    | false =>
      rw [updateFirst_cons_of_neg hp, find?_cons_of_neg (by simp [hp])]
      rcases ih with ⟨hnone, hsame⟩ | ⟨front, a, behind, hfind, rfl, hfront, hupdate⟩
      · exact Or.inl ⟨hnone, by rw [hsame]⟩
      · refine Or.inr ⟨b :: front, a, behind, hfind, rfl, ?_, by rw [hupdate]; rfl⟩
        rintro c (_ | ⟨_, hc⟩)
        · exact hp
        · exact hfront c hc

theorem map_updateFirst {g : α → β} (h : ∀ a, l.find? p = some a → g (f a) = g a) :
    (updateFirst p f l).map g = l.map g := by
  rcases updateFirst_cases p f l with ⟨-, hsame⟩ | ⟨front, a, behind, hfind, hl, -, hupdate⟩
  · rw [hsame]
  · have ha := h a hfind
    rw [hupdate, hl, map_append, map_append, map_cons, map_cons, ha]

@[simp] theorem length_updateFirst : (updateFirst p f l).length = l.length := by
  have h := congrArg length (map_updateFirst (p := p) (f := f) (l := l) (g := fun _ => ()) fun _ _ => rfl)
  simpa using h

theorem countP_updateFirst {q : α → Bool} (h : ∀ a, l.find? p = some a → q (f a) = q a) :
    (updateFirst p f l).countP q = l.countP q := by
  have hcount := congrArg (countP id) (map_updateFirst h)
  rwa [countP_map, countP_map] at hcount

theorem filter_updateFirst {q : α → Bool} (h : ∀ a, l.find? p = some a → q a = false ∧ q (f a) = false) :
    (updateFirst p f l).filter q = l.filter q := by
  rcases updateFirst_cases p f l with ⟨-, hsame⟩ | ⟨front, a, behind, hfind, hl, -, hupdate⟩
  · rw [hsame]
  · obtain ⟨hbefore, hafter⟩ := h a hfind
    rw [hupdate, hl, filter_append, filter_append, filter_cons_of_neg (by simp [hafter]),
      filter_cons_of_neg (by simp [hbefore])]

theorem mem_updateFirst {b : α} (h : b ∈ updateFirst p f l) : b ∈ l ∨ ∃ a, l.find? p = some a ∧ b = f a := by
  rcases updateFirst_cases p f l with ⟨-, hsame⟩ | ⟨front, a, behind, hfind, hl, -, hupdate⟩
  · exact Or.inl (hsame ▸ h)
  · rw [hupdate, mem_append, mem_cons] at h
    rcases h with h | rfl | h
    · exact Or.inl (hl ▸ mem_append_left _ h)
    · exact Or.inr ⟨a, hfind, rfl⟩
    · exact Or.inl (hl ▸ mem_append_right _ (mem_cons_of_mem _ h))

section Found

variable {a : α} (h : l.find? p = some a)
include h

theorem exists_updateFirst_eq (f : α → α) : ∃ front behind, l = front ++ a :: behind ∧
    (∀ b ∈ front, p b = false) ∧ updateFirst p f l = front ++ f a :: behind := by
  rcases updateFirst_cases p f l with ⟨hnone, -⟩ | ⟨front, b, behind, hfind, hrest⟩
  · simp [hnone] at h
  · obtain rfl : b = a := Option.some.inj (hfind.symm.trans h)
    exact ⟨front, behind, hrest⟩

theorem mem_updateFirst_of_find? : f a ∈ updateFirst p f l := by
  obtain ⟨front, behind, -, -, hupdate⟩ := exists_updateFirst_eq h f
  rw [hupdate]
  exact mem_append_right _ mem_cons_self

theorem find?_updateFirst (hf : p (f a) = true) : (updateFirst p f l).find? p = some (f a) := by
  obtain ⟨front, behind, -, hfront, hupdate⟩ := exists_updateFirst_eq h f
  rw [hupdate, find?_eq_some_iff_append]
  exact ⟨hf, front, behind, rfl, fun b hb => by simp [hfront b hb]⟩

end Found

theorem mem_updateFirst_of_mem {a : α} (hmem : a ∈ l) (h : l.find? p ≠ some a) : a ∈ updateFirst p f l := by
  rcases updateFirst_cases p f l with ⟨-, hsame⟩ | ⟨front, b, behind, hfind, hl, -, hupdate⟩
  · rwa [hsame]
  · have hne : a ≠ b := fun heq => h (heq ▸ hfind)
    rw [hl, mem_append, mem_cons] at hmem
    rw [hupdate, mem_append, mem_cons]
    exact hmem.imp_right fun hmem => Or.inr (hmem.resolve_left hne)

/-- Where at most one entry passes, since those that pass have the same attribute, every entry that passes is
changed. -/
theorem updateFirst_eq_map {g : α → β} (hnodup : (l.map g).Nodup)
    (h : ∀ a ∈ l, ∀ b ∈ l, p a = true → p b = true → g a = g b) :
    updateFirst p f l = l.map fun a => if p a then f a else a := by
  induction l with
  | nil => rfl
  | cons a l ih =>
    rw [map_cons, nodup_cons] at hnodup
    cases hp : p a with
    | true =>
      have hrest : l.map (fun b => if p b then f b else b) = l := by
        refine (map_congr_left fun b hb => ?_).trans (map_id l)
        refine if_neg fun hpb => hnodup.1 ?_
        rw [h a mem_cons_self b (mem_cons_of_mem _ hb) hp hpb]
        exact mem_map_of_mem hb
      rw [updateFirst_cons_of_pos hp, map_cons, if_pos hp, hrest]
    | false =>
      rw [updateFirst_cons_of_neg hp, map_cons, if_neg (by simp [hp]),
        ih hnodup.2 fun b hb c hc => h b (mem_cons_of_mem _ hb) c (mem_cons_of_mem _ hc)]

end List
