import Aegis.Lib.SortedMap
import Mathlib.Data.List.Perm.Basic

/-!
# Items that are answered for once

Items are put into a table, each under a key and with a number of its own. An item leaves the table for some
reason; for some reasons something is due then, which is done later, one item at a time and in any order. The
record of all this is a `Custody`, and it stays `Balanced`: a number is in the table or has left it, once, and
what is due or done is what has left for a reason of that kind. So no item leaves twice, and for none something is
done twice.
-/

structure Custody (K R A : Type) [LinearOrder K] where
  /-- How many items were put into the table; the next one has this number. -/
  issued : Nat := 0
  held : SortedMap K Nat := ∅
  left : List (Nat × R) := []
  due : List (Nat × R) := []
  done : List ((Nat × R) × A) := []

namespace Custody

variable {K R A : Type} [LinearOrder K] {owes : R → Bool} {c : Custody K R A}

def put (c : Custody K R A) (key : K) : Custody K R A :=
  { c with issued := c.issued + 1, held := c.held.insert key c.issued }

/-- The items under the given keys leave. -/
def depart (owes : R → Bool) (c : Custody K R A) (goes : K → Bool) (reason : R) : Custody K R A :=
  let gone := (c.held.filter fun key _ => goes key).entries.map fun entry => (entry.2, reason)
  { c with
    held := c.held.filter fun key _ => !goes key
    left := c.left ++ gone
    due := if owes reason then c.due ++ gone else c.due }

/-- What is due at a place is done. -/
def settle (c : Custody K R A) (i : Nat) (act : A) : Custody K R A :=
  match c.due[i]? with
  | none => c
  | some item => { c with due := c.due.eraseIdx i, done := c.done ++ [(item, act)] }

structure Balanced (owes : R → Bool) (c : Custody K R A) : Prop where
  numbers : (c.held.entries.map Prod.snd ++ c.left.map Prod.fst).Perm (List.range c.issued)
  settled : (c.due ++ c.done.map Prod.fst).Perm (c.left.filter fun item => owes item.2)

namespace Balanced

theorem empty (owes : R → Bool) : Balanced owes ({} : Custody K R A) := ⟨.refl _, .refl _⟩

section

variable (h : c.Balanced owes)
include h

theorem put {key : K} (hfresh : c.held.find? key = none) : (c.put key).Balanced owes := by
  refine ⟨?_, h.settled⟩
  obtain ⟨front, back, hentries, hinsert⟩ := SortedMap.entries_insert_of_absent hfresh
  have hvalues : ((c.held.insert key c.issued).entries.map Prod.snd).Perm
      (c.issued :: c.held.entries.map Prod.snd) := by
    rw [hinsert, hentries]
    exact List.perm_middle.map Prod.snd
  show ((c.held.insert key c.issued).entries.map Prod.snd ++ c.left.map Prod.fst).Perm (List.range (c.issued + 1))
  rw [List.range_succ]
  exact (hvalues.append_right _).trans ((h.numbers.cons c.issued).trans (List.perm_append_singleton _ _).symm)

theorem depart (goes : K → Bool) (reason : R) : (c.depart owes goes reason).Balanced owes := by
  constructor
  · -- those that stay and those that go are those that were held
    have hsplit : ((c.held.filter fun key _ => !goes key).entries.map Prod.snd ++
        (c.held.filter fun key _ => goes key).entries.map Prod.snd).Perm (c.held.entries.map Prod.snd) := by
      rw [← List.map_append]
      exact (List.perm_append_comm.trans (List.filter_append_perm (fun entry => goes entry.1) _)).map Prod.snd
    simp only [Custody.depart, List.map_append, List.map_map, Function.comp_def]
    refine ((List.perm_append_comm.append_left _).trans ?_).trans h.numbers
    rw [← List.append_assoc]
    exact hsplit.append_right _
  · simp only [Custody.depart, List.filter_append, List.filter_map, Function.comp_def]
    cases howes : owes reason with
    | false => simpa using h.settled
    | true =>
      simp only [if_true, List.filter_true]
      rw [List.append_assoc]
      refine (List.perm_append_comm.append_left _).trans ?_
      rw [← List.append_assoc]
      exact h.settled.append_right _

theorem settle (i : Nat) (act : A) : (c.settle i act).Balanced owes := by
  unfold Custody.settle
  cases hdue : c.due[i]? with
  | none => exact h
  | some item =>
    refine ⟨h.numbers, ?_⟩
    obtain ⟨hi, rfl⟩ := List.getElem?_eq_some_iff.mp hdue
    show (c.due.eraseIdx i ++ (c.done ++ [(c.due[i], act)]).map Prod.fst).Perm _
    rw [List.map_append, List.map_cons, List.map_nil, ← List.append_assoc]
    refine (List.perm_append_singleton _ _).trans ?_
    rw [← List.cons_append]
    exact ((List.getElem_cons_eraseIdx_perm hi).append_right _).trans h.settled

theorem lt_issued_of_held {key : K} {n : Nat} (hheld : c.held.find? key = some n) : n < c.issued := by
  have hmem : n ∈ c.held.entries.map Prod.snd := List.mem_map.mpr ⟨_, SortedMap.find?_eq_some_iff.mp hheld, rfl⟩
  exact List.mem_range.mp (h.numbers.mem_iff.mp (List.mem_append_left _ hmem))

theorem lt_issued_of_left {item : Nat × R} (hleft : item ∈ c.left) : item.1 < c.issued :=
  List.mem_range.mp (h.numbers.mem_iff.mp (List.mem_append_right _ (List.mem_map.mpr ⟨item, hleft, rfl⟩)))

theorem mem_left_of_due {item : Nat × R} (hdue : item ∈ c.due) : item ∈ c.left :=
  (List.mem_filter.mp (h.settled.mem_iff.mp (List.mem_append_left _ hdue))).1

theorem nodup_left : (c.left.map Prod.fst).Nodup :=
  ((h.numbers.nodup_iff.mpr List.nodup_range).sublist (List.sublist_append_right _ _))

theorem reason_unique {n : Nat} {reason reason' : R} (hmem : (n, reason) ∈ c.left)
    (hmem' : (n, reason') ∈ c.left) : reason = reason' :=
  congrArg Prod.snd (List.inj_on_of_nodup_map h.nodup_left hmem hmem' rfl)

theorem mem_left_of_done {item : Nat × R} {act : A} (hdone : (item, act) ∈ c.done) :
    item ∈ c.left ∧ owes item.2 = true :=
  List.mem_filter.mp (h.settled.mem_iff.mp (List.mem_append_right _ (List.mem_map.mpr ⟨_, hdone, rfl⟩)))

theorem nodup_done : (c.done.map fun d => d.1.1).Nodup := by
  have hnodup : ((c.left.filter fun item => owes item.2).map Prod.fst).Nodup :=
    h.nodup_left.sublist (List.filter_sublist.map _)
  have hsettled := (h.settled.map Prod.fst).nodup_iff.mpr hnodup
  rw [List.map_append, List.map_map] at hsettled
  exact hsettled.sublist (List.sublist_append_right _ _)

end

end Balanced

end Custody
