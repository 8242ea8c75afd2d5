import Mathlib.Data.List.Basic

/-!
# Text cut at a separator

`segments` are the parts that a scanner visits which starts at the front, reads up to the next separator and
stops at the end of the text: like `List.splitOn`, but there is no part after a separator at the end and none in
an empty text. `cutFirst` and `cutLast` cut at the first and the last separator, `firstDouble` at the first pair of
separators. Joining parts that are neither empty nor hold the separator is inverse to cutting.
-/

variable {α : Type} {sep : α}

namespace Segments

/-! ## Joined parts -/

theorem cons_intercalate (a : α) (part : List α) (parts : List (List α)) :
    [sep].intercalate ((a :: part) :: parts) = a :: [sep].intercalate (part :: parts) := by
  cases parts with
  | nil => rw [List.intercalate_singleton, List.intercalate_singleton]
  | cons next parts =>
    rw [List.intercalate_cons_cons, List.intercalate_cons_cons]
    rfl

theorem intercalate_cons (part : List α) (parts : List (List α)) :
    [sep].intercalate (part :: parts) = part ++ parts.flatMap (sep :: ·) := by
  induction parts generalizing part with
  | nil => rw [List.intercalate_singleton, List.flatMap_nil, List.append_nil]
  | cons next parts ih =>
    rw [List.intercalate_cons_cons, ih, List.flatMap_cons, List.append_assoc]
    rfl

variable {parts : List (List α)}

theorem mem_intercalate {a : α} (h : a ∈ [sep].intercalate parts) : a = sep ∨ ∃ part ∈ parts, a ∈ part := by
  induction parts with
  | nil => exact absurd h List.not_mem_nil
  | cons part parts ih =>
    cases parts with
    | nil =>
      rw [List.intercalate_singleton] at h
      exact Or.inr ⟨part, List.mem_cons_self, h⟩
    | cons next parts =>
      rw [List.intercalate_cons_cons, List.mem_append, List.mem_append, List.mem_singleton] at h
      rcases h with (h | h) | h
      · exact Or.inr ⟨part, List.mem_cons_self, h⟩
      · exact Or.inl h
      · rcases ih h with h | ⟨other, hother, h⟩
        · exact Or.inl h
        · exact Or.inr ⟨other, List.mem_cons_of_mem part hother, h⟩

theorem intercalate_ne_nil (hne : ∀ part ∈ parts, part ≠ []) (h : parts ≠ []) : [sep].intercalate parts ≠ [] := by
  cases parts with
  | nil => exact absurd rfl h
  | cons part parts =>
    obtain ⟨a, part, rfl⟩ := List.exists_cons_of_ne_nil (hne part List.mem_cons_self)
    rw [cons_intercalate]
    exact List.cons_ne_nil _ _

theorem sep_mem_intercalate (h : 2 ≤ parts.length) : sep ∈ [sep].intercalate parts := by
  match parts, h with
  | part :: next :: parts, _ =>
    rw [List.intercalate_cons_cons, List.mem_append, List.mem_append]
    exact Or.inl (Or.inr List.mem_cons_self)

theorem head?_intercalate_ne (hne : ∀ part ∈ parts, part ≠ []) (hsep : ∀ part ∈ parts, sep ∉ part) :
    ([sep].intercalate parts).head? ≠ some sep := by
  cases parts with
  | nil => exact nofun
  | cons part parts =>
    obtain ⟨a, part, rfl⟩ := List.exists_cons_of_ne_nil (hne part List.mem_cons_self)
    rw [cons_intercalate, List.head?_cons, Ne, Option.some.injEq]
    rintro rfl
    exact hsep _ List.mem_cons_self List.mem_cons_self

theorem getLast?_intercalate_ne (hne : ∀ part ∈ parts, part ≠ []) (hsep : ∀ part ∈ parts, sep ∉ part) :
    ([sep].intercalate parts).getLast? ≠ some sep := by
  induction parts with
  | nil => exact nofun
  | cons part parts ih =>
    cases parts with
    | nil =>
      rw [List.intercalate_singleton]
      exact fun h => hsep part List.mem_cons_self (List.mem_of_getLast? h)
    | cons next parts =>
      have hne' : ∀ p ∈ next :: parts, p ≠ [] := fun p hp => hne p (List.mem_cons_of_mem part hp)
      have hlast := ih hne' fun p hp => hsep p (List.mem_cons_of_mem part hp)
      rw [List.intercalate_cons_cons, List.getLast?_append_of_ne_nil _
        (intercalate_ne_nil hne' (List.cons_ne_nil next parts))]
      exact hlast

end Segments

variable [DecidableEq α]

/-- The parts between separators, without an empty part at the end. -/
def segments (sep : α) : List α → List (List α)
  | [] => []
  | a :: rest =>
    if a = sep then [] :: segments sep rest
    else
      match segments sep rest with
      | [] => [[a]]
      | part :: parts => (a :: part) :: parts

/-- What stands before and after the first pair of separators. -/
def firstDouble (sep : α) : List α → Option (List α × List α)
  | a :: b :: rest =>
    if a = sep ∧ b = sep then some ([], rest)
    else (firstDouble sep (b :: rest)).map fun (left, right) => (a :: left, right)
  | _ => none

/-- What stands before and after the first separator. -/
def cutFirst (sep : α) : List α → Option (List α × List α)
  | [] => none
  | a :: rest => if a = sep then some ([], rest) else (cutFirst sep rest).map fun (left, right) => (a :: left, right)

/-- What stands before and after the last separator. -/
def cutLast (sep : α) : List α → Option (List α × List α)
  | [] => none
  | a :: rest =>
    match cutLast sep rest with
    | some (left, right) => some (a :: left, right)
    | none => if a = sep then some ([], rest) else none

namespace Segments

/-! ## Cutting at separators -/

theorem segments_append_cons {front : List α} (h : sep ∉ front) (rest : List α) :
    segments sep (front ++ sep :: rest) = front :: segments sep rest := by
  induction front with
  | nil => exact if_pos rfl
  | cons a front ih =>
    rw [List.mem_cons, not_or] at h
    rw [List.cons_append, segments, if_neg (Ne.symm h.1), ih h.2]

variable {text : List α}

theorem segments_of_not_mem (h : sep ∉ text) (hne : text ≠ []) : segments sep text = [text] := by
  induction text with
  | nil => exact absurd rfl hne
  | cons a text ih =>
    rw [List.mem_cons, not_or] at h
    rw [segments, if_neg (Ne.symm h.1)]
    cases text with
    | nil => rfl
    | cons b text => rw [ih h.2 (List.cons_ne_nil b text)]

theorem segments_eq_nil (h : segments sep text = []) : text = [] := by
  cases text with
  | nil => rfl
  | cons a text =>
    rw [segments] at h
    split_ifs at h
    split at h <;> cases h

theorem intercalate_segments (h : text.getLast? ≠ some sep) : [sep].intercalate (segments sep text) = text := by
  induction text with
  | nil => rfl
  | cons a text ih =>
    cases htext : text with
    | nil =>
      rw [htext, List.getLast?_singleton, Ne, Option.some.injEq] at h
      rw [segments, if_neg h]
      rfl
    | cons b rest =>
      have hrest : text.getLast? ≠ some sep := by
        rw [htext, List.getLast?_cons_cons] at h
        rwa [htext]
      have hjoin := ih hrest
      have hne : segments sep text ≠ [] := by
        intro hnil
        rw [segments_eq_nil hnil] at htext
        cases htext
      rw [← htext, segments]
      split_ifs with ha
      · rw [List.intercalate_cons_of_ne_nil hne, hjoin, ha]
        rfl
      · split
        · next hnil => exact absurd hnil hne
        · next part parts hparts => rw [cons_intercalate, ← hparts, hjoin]

theorem segments_intercalate {parts : List (List α)} (hne : ∀ part ∈ parts, part ≠ [])
    (hsep : ∀ part ∈ parts, sep ∉ part) : segments sep ([sep].intercalate parts) = parts := by
  induction parts with
  | nil => rfl
  | cons part parts ih =>
    have hpart := hsep part List.mem_cons_self
    cases parts with
    | nil =>
      rw [List.intercalate_singleton]
      exact segments_of_not_mem hpart (hne part List.mem_cons_self)
    | cons next parts =>
      rw [List.intercalate_cons_cons, List.append_assoc, List.singleton_append, segments_append_cons hpart,
        ih (fun p hp => hne p (List.mem_cons_of_mem part hp)) (fun p hp => hsep p (List.mem_cons_of_mem part hp))]

theorem segments_flatMap_concat {parts : List (List α)} (hsep : ∀ part ∈ parts, sep ∉ part) :
    segments sep (parts.flatMap (· ++ [sep])) = parts := by
  induction parts with
  | nil => rfl
  | cons part parts ih =>
    rw [List.forall_mem_cons] at hsep
    rw [List.flatMap_cons, List.append_assoc, List.singleton_append, segments_append_cons hsep.1, ih hsep.2]

theorem cutFirst_append_cons {front : List α} (h : sep ∉ front) (back : List α) :
    cutFirst sep (front ++ sep :: back) = some (front, back) := by
  induction front with
  | nil => exact if_pos rfl
  | cons a front ih =>
    rw [List.mem_cons, not_or] at h
    rw [List.cons_append, cutFirst, if_neg (Ne.symm h.1), ih h.2, Option.map_some]

theorem cutFirst_of_not_mem (h : sep ∉ text) : cutFirst sep text = none := by
  induction text with
  | nil => rfl
  | cons a text ih =>
    rw [List.mem_cons, not_or] at h
    rw [cutFirst, if_neg (Ne.symm h.1), ih h.2, Option.map_none]

theorem exists_cutFirst (h : sep ∈ text) :
    ∃ front back, cutFirst sep text = some (front, back) ∧ text = front ++ sep :: back := by
  obtain ⟨front, back, rfl, hfront⟩ := List.eq_append_cons_of_mem h
  exact ⟨front, back, cutFirst_append_cons hfront back, rfl⟩

theorem cutLast_of_not_mem (h : sep ∉ text) : cutLast sep text = none := by
  induction text with
  | nil => rfl
  | cons a text ih =>
    rw [List.mem_cons, not_or] at h
    rw [cutLast, ih h.2]
    exact if_neg (Ne.symm h.1)

theorem cutLast_append_cons {back : List α} (h : sep ∉ back) (front : List α) :
    cutLast sep (front ++ sep :: back) = some (front, back) := by
  induction front with
  | nil =>
    rw [List.nil_append, cutLast, cutLast_of_not_mem h]
    exact if_pos rfl
  | cons a front ih => rw [List.cons_append, cutLast, ih]

/-! ## Pairs of separators -/

theorem firstDouble_eq_some {text left right : List α} (h : firstDouble sep text = some (left, right)) :
    text = left ++ sep :: sep :: right ∧ left.getLast? ≠ some sep := by
  fun_induction firstDouble sep text generalizing left with
  | case1 a b rest hpair =>
    obtain ⟨rfl, rfl⟩ := Prod.mk.inj (Option.some.inj h)
    exact ⟨by rw [hpair.1, hpair.2]; rfl, nofun⟩
  | case2 a b rest hpair ih =>
    obtain ⟨⟨left', right'⟩, hfound, heq⟩ := Option.map_eq_some_iff.mp h
    obtain ⟨rfl, rfl⟩ := Prod.mk.inj heq
    obtain ⟨htext, hlast⟩ := ih hfound
    refine ⟨by rw [htext]; rfl, ?_⟩
    cases left' with
    | nil =>
      intro ha
      rw [List.getLast?_singleton, Option.some.injEq] at ha
      exact hpair ⟨ha, (List.cons.inj htext).1⟩
    | cons c left' =>
      rw [List.getLast?_cons_cons]
      exact hlast
  | case3 => cases h

theorem firstDouble_cons {a : α} (h : ¬ (a = sep ∧ text.head? = some sep)) :
    firstDouble sep (a :: text) = (firstDouble sep text).map fun (left, right) => (a :: left, right) := by
  cases text with
  | nil => rfl
  | cons b text =>
    rw [List.head?_cons, Option.some.injEq] at h
    rw [firstDouble, if_neg h]

theorem firstDouble_append {left : List α} (hnone : firstDouble sep left = none) (hlast : left.getLast? ≠ some sep)
    (right : List α) : firstDouble sep (left ++ sep :: sep :: right) = some (left, right) := by
  induction left with
  | nil => exact if_pos ⟨rfl, rfl⟩
  | cons a left ih =>
    cases left with
    | nil =>
      rw [List.getLast?_singleton, Ne, Option.some.injEq] at hlast
      rw [List.cons_append, firstDouble_cons (fun h => hlast h.1), ih rfl nofun]
      rfl
    | cons b left =>
      have hpair : ¬ (a = sep ∧ (b :: left).head? = some sep) := by
        intro h
        rw [List.head?_cons, Option.some.injEq] at h
        rw [firstDouble, if_pos h] at hnone
        cases hnone
      rw [List.getLast?_cons_cons] at hlast
      rw [firstDouble_cons hpair, Option.map_eq_none_iff] at hnone
      have hpair' : ¬ (a = sep ∧ (b :: left ++ sep :: sep :: right).head? = some sep) := hpair
      rw [List.cons_append, firstDouble_cons hpair', ih hnone hlast]
      rfl

theorem firstDouble_append_ne_none (left right : List α) : firstDouble sep (left ++ sep :: sep :: right) ≠ none := by
  induction left with
  | nil =>
    rw [List.nil_append, firstDouble, if_pos ⟨rfl, rfl⟩]
    exact nofun
  | cons a left ih =>
    by_cases hpair : a = sep ∧ (left ++ sep :: sep :: right).head? = some sep
    · obtain ⟨b, text, htext⟩ := List.exists_cons_of_ne_nil
        (List.append_ne_nil_of_right_ne_nil left (List.cons_ne_nil sep (sep :: right)))
      rw [htext, List.head?_cons, Option.some.injEq] at hpair
      rw [List.cons_append, htext, firstDouble, if_pos hpair]
      exact nofun
    · rw [List.cons_append, firstDouble_cons hpair, Ne, Option.map_eq_none_iff]
      exact ih

theorem firstDouble_of_not_mem (h : sep ∉ text) : firstDouble sep text = none := by
  induction text with
  | nil => rfl
  | cons a text ih =>
    rw [List.mem_cons, not_or] at h
    rw [firstDouble_cons (fun hpair => h.1 hpair.1.symm), ih h.2]
    rfl

theorem firstDouble_append_cons {front rest : List α} (h : sep ∉ front) (hhead : rest.head? ≠ some sep)
    (hnone : firstDouble sep rest = none) : firstDouble sep (front ++ sep :: rest) = none := by
  induction front with
  | nil =>
    rw [List.nil_append, firstDouble_cons (fun hpair => hhead hpair.2), hnone]
    rfl
  | cons a front ih =>
    rw [List.mem_cons, not_or] at h
    rw [List.cons_append, firstDouble_cons (fun hpair => h.1 hpair.1.symm), ih h.2]
    rfl

theorem firstDouble_intercalate {parts : List (List α)} (hne : ∀ part ∈ parts, part ≠ [])
    (hsep : ∀ part ∈ parts, sep ∉ part) : firstDouble sep ([sep].intercalate parts) = none := by
  induction parts with
  | nil => rfl
  | cons part parts ih =>
    have hpart := hsep part List.mem_cons_self
    cases parts with
    | nil =>
      rw [List.intercalate_singleton]
      exact firstDouble_of_not_mem hpart
    | cons next parts =>
      have hne' : ∀ p ∈ next :: parts, p ≠ [] := fun p hp => hne p (List.mem_cons_of_mem part hp)
      have hsep' : ∀ p ∈ next :: parts, sep ∉ p := fun p hp => hsep p (List.mem_cons_of_mem part hp)
      rw [List.intercalate_cons_cons, List.append_assoc, List.singleton_append]
      exact firstDouble_append_cons hpart (head?_intercalate_ne hne' hsep') (ih hne' hsep')

end Segments
