import Mathlib.Data.List.TakeWhile
import Mathlib.Data.List.GetD
import Mathlib.Order.Lattice

/-!
# Bitmaps

A bitmap is a list of flags; past its end every flag is off. `scan` and `scanBack` are the loops that walk
over equal flags, upwards and downwards, and their lemmas say what the flags passed are. The number of set
flags follows single updates, and it reaches the length exactly when every flag is set.
-/

namespace Bitmap

def get (bits : List Bool) (i : Nat) : Bool := bits.getD i false

/-- Walk up from `index` while the flags are `value`. -/
def scan (value : Bool) (bits : List Bool) (index : Nat) : Nat :=
  index + ((bits.drop index).takeWhile (· == value)).length

/-- Walk down from `index` while the flag below is set, not below `low`. -/
def scanBack (bits : List Bool) (low : Nat) : Nat → Nat
  | 0 => 0
  | index + 1 => if low < index + 1 && get bits index then scanBack bits low index else index + 1

variable {bits : List Bool} {i j : Nat}

theorem get_of_le (h : bits.length ≤ i) : get bits i = false := List.getD_eq_default _ _ h

theorem lt_of_get (h : get bits i = true) : i < bits.length := by
  by_contra hlt
  rw [get_of_le (by omega)] at h
  exact absurd h (by simp)

@[simp] theorem get_replicate_false (n i : Nat) : get (List.replicate n false) i = false := by
  rcases Nat.lt_or_ge i n with h | h
  · simp [get, List.getD, h]
  · exact get_of_le (by simpa using h)

theorem get_set (bits : List Bool) (i j : Nat) (value : Bool) :
    get (bits.set i value) j = if i = j ∧ j < bits.length then value else get bits j := by
  simp only [get, List.getD, List.getElem?_set]
  by_cases hij : i = j
  · subst hij
    by_cases hlt : i < bits.length
    · simp [hlt]
    · simp [hlt]
  · simp [hij]

theorem count_set_true (hlt : i < bits.length) (hoff : get bits i = false) :
    (bits.set i true).count true = bits.count true + 1 := by
  have hflag : bits[i] = false := by simpa [get, List.getD, hlt] using hoff
  rw [List.count_set hlt, hflag]
  simp

theorem count_set_false (hon : get bits i = true) : (bits.set i false).count true + 1 = bits.count true := by
  have hlt := lt_of_get hon
  have hflag : bits[i] = true := by simpa [get, List.getD, hlt] using hon
  have hpos : 0 < bits.count true := List.count_pos_iff.mpr (hflag ▸ List.getElem_mem hlt)
  rw [List.count_set hlt, hflag]
  simp
  omega

theorem get_of_count_eq_length (h : bits.count true = bits.length) (hlt : i < bits.length) : get bits i = true := by
  have hmem : bits[i] ∈ bits := List.getElem_mem hlt
  rw [List.count_eq_length] at h
  simpa [get, List.getD, hlt] using (h _ hmem).symm

theorem count_eq_length_of_get (h : ∀ i < bits.length, get bits i = true) : bits.count true = bits.length := by
  rw [List.count_eq_length]
  intro flag hmem
  obtain ⟨i, hlt, rfl⟩ := List.mem_iff_getElem.mp hmem
  simpa [get, List.getD, hlt] using (h i hlt).symm

/-! ### Walks -/

theorem le_scan (value : Bool) (bits : List Bool) (index : Nat) : index ≤ scan value bits index := by
  unfold scan
  omega

theorem scan_le (value : Bool) (hi : i ≤ bits.length) : scan value bits i ≤ bits.length := by
  have hle := (List.takeWhile_sublist (· == value) (l := bits.drop i)).length_le
  rw [List.length_drop] at hle
  unfold scan
  omega

theorem get_of_lt_scan {value : Bool} (hge : i ≤ j) (hlt : j < scan value bits i) : get bits j = value := by
  set run := (bits.drop i).takeWhile (· == value) with hrun
  have hj : j - i < run.length := by
    have : scan value bits i = i + run.length := rfl
    omega
  have hget : run[j - i] = value := by
    have := List.mem_takeWhile_imp (List.getElem_mem hj)
    simpa using this
  have hsome : (bits.drop i)[j - i]? = some value := by
    rw [← List.takeWhile_append_dropWhile (p := (· == value)) (l := bits.drop i), ← hrun,
      List.getElem?_append_left hj]
    exact List.getElem?_eq_some_iff.mpr ⟨hj, hget⟩
  rw [List.getElem?_drop, show i + (j - i) = j by omega] at hsome
  simp [get, List.getD, hsome]

theorem not_of_getElem?_length_takeWhile {α : Type} {p : α → Bool} {l : List α} {x : α}
    (h : l[(l.takeWhile p).length]? = some x) : p x = false := by
  induction l with
  | nil => simp at h
  | cons y l ih =>
    by_cases hy : p y
    · exact ih (by simpa [hy] using h)
    · obtain rfl : y = x := by simpa [hy] using h
      simpa using hy

theorem get_scan (value : Bool) (h : scan value bits i < bits.length) : get bits (scan value bits i) = !value := by
  have hflag : (bits.drop i)[((bits.drop i).takeWhile (· == value)).length]? = some bits[scan value bits i] := by
    rw [List.getElem?_drop]
    exact List.getElem?_eq_getElem h
  have hne := not_of_getElem?_length_takeWhile hflag
  rw [get, List.getD, List.getElem?_eq_getElem h, Option.getD_some]
  cases value with
  | true => simpa using hne
  | false => simpa using hne

theorem get_scan_true (bits : List Bool) (i : Nat) : get bits (scan true bits i) = false := by
  rcases Nat.lt_or_ge (scan true bits i) bits.length with hlt | hge
  · exact get_scan true hlt
  · exact get_of_le hge

theorem lt_scan_true (h : get bits i = true) : i < scan true bits i := by
  rcases Nat.lt_or_eq_of_le (le_scan true bits i) with hlt | heq
  · exact hlt
  · rw [heq, get_scan_true] at h
    exact absurd h (by simp)

theorem le_scanBack {low index : Nat} (h : low ≤ index) : low ≤ scanBack bits low index := by
  induction index with
  | zero => exact h
  | succ index ih =>
    unfold scanBack
    split
    · rename_i hstep
      simp only [Bool.and_eq_true, decide_eq_true_eq] at hstep
      exact ih (by omega)
    · exact h

theorem scanBack_le (bits : List Bool) (low index : Nat) : scanBack bits low index ≤ index := by
  induction index with
  | zero => simp [scanBack]
  | succ index ih =>
    unfold scanBack
    split
    · omega
    · exact le_refl _

theorem get_of_scanBack_le {low index : Nat} (hge : scanBack bits low index ≤ j) (hlt : j < index) :
    get bits j = true := by
  induction index with
  | zero => omega
  | succ index ih =>
    unfold scanBack at hge
    split at hge
    · rename_i hstep
      rcases Nat.lt_or_ge j index with hj | hj
      · exact ih hge hj
      · obtain rfl : j = index := by omega
        simp only [Bool.and_eq_true] at hstep
        exact hstep.2
    · omega

end Bitmap
