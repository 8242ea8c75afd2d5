import Mathlib.Data.Finset.Lattice.Fold

/-!
# Highest marks

Entries come in some order, each with a key and a mark, and for every key the highest mark so far is kept. Raising
the level of a key is idempotent and commutes with any other raise, so the levels in the end are the suprema over
the set of entries that came (`foldl_raise`): neither their order nor how often they came matters.
-/

namespace HighWater

variable {α K T : Type} [DecidableEq K] [SemilatticeSup T] [OrderBot T] (key : α → K) (mark : α → T)

/-- The level of the entry's key is raised to its mark. -/
def raise (level : K → T) (a : α) : K → T := Function.update level (key a) (level (key a) ⊔ mark a)

/-- The highest mark of a key in a set of entries. -/
def highest (entries : Finset α) (k : K) : T := (entries.filter fun a => key a = k).sup mark

theorem raise_apply (level : K → T) (a : α) (k : K) :
    raise key mark level a k = level k ⊔ if key a = k then mark a else ⊥ := by
  unfold raise
  by_cases hk : key a = k
  · subst hk
    rw [Function.update_self, if_pos rfl]
  · rw [Function.update_of_ne (Ne.symm hk), if_neg hk, sup_bot_eq]

variable [DecidableEq α]

theorem highest_insert (a : α) (entries : Finset α) (k : K) :
    highest key mark (insert a entries) k = (if key a = k then mark a else ⊥) ⊔ highest key mark entries k := by
  unfold highest
  rw [Finset.filter_insert]
  split_ifs
  · rw [Finset.sup_insert]
  · rw [bot_sup_eq]

theorem foldl_raise (entries : List α) (level : K → T) (k : K) :
    entries.foldl (raise key mark) level k = level k ⊔ highest key mark entries.toFinset k := by
  induction entries generalizing level with
  | nil => simp [highest]
  | cons a rest ih => rw [List.foldl_cons, ih, raise_apply, List.toFinset_cons, highest_insert, sup_assoc]

end HighWater
