import Mathlib.Data.List.Nodup
import Mathlib.Order.Lattice

/-!
# Ordered maps as sorted association lists

`SortedMap K V` is a finite map whose entries are kept strictly sorted by key, the iteration order of
an ordered map. Sortedness is a field, so no operation has to be given it and a lookup is the same as
membership (`find?_eq_some_iff`). Two maps with the same lookups are equal (`ext_find?`).

The operations are those of an ordered map: lookup, insertion that overwrites, erasure, erasure of every
entry that fails a test (`filter`), a change of every value (`mapValues`), the first entry in key order that
passes a test (`findIf?`) and the least entry for an order on entries (`minElement?`).
-/

/-- A finite map with entries strictly sorted by key. -/
structure SortedMap (K V : Type) [LinearOrder K] where
  entries : List (K × V)
  sorted : entries.Pairwise (fun a b => a.1 < b.1)

namespace SortedMap

variable {K V : Type} [LinearOrder K]

theorem eq_of_entries {m n : SortedMap K V} (h : m.entries = n.entries) : m = n := by
  cases m
  cases n
  simp_all

instance [DecidableEq V] : DecidableEq (SortedMap K V) := fun m n =>
  decidable_of_iff (m.entries = n.entries) ⟨eq_of_entries, fun h => by rw [h]⟩

def empty : SortedMap K V := ⟨[], List.Pairwise.nil⟩

instance : EmptyCollection (SortedMap K V) := ⟨empty⟩

instance : Inhabited (SortedMap K V) := ⟨empty⟩

/-- The value stored under `k`. -/
def find? (m : SortedMap K V) (k : K) : Option V :=
  (m.entries.find? (fun e => e.1 = k)).map Prod.snd

def contains (m : SortedMap K V) (k : K) : Bool := (m.find? k).isSome

def size (m : SortedMap K V) : Nat := m.entries.length

/-- Keep the entries that pass `p`. -/
def filter (m : SortedMap K V) (p : K → V → Bool) : SortedMap K V :=
  ⟨m.entries.filter (fun e => p e.1 e.2), m.sorted.filter _⟩

def erase (m : SortedMap K V) (k : K) : SortedMap K V := m.filter fun k' _ => k' ≠ k

/-- Store `v` under `k`, replacing what was there. -/
def insert (m : SortedMap K V) (k : K) (v : V) : SortedMap K V where
  entries := m.entries.filter (fun e => e.1 < k) ++ (k, v) :: m.entries.filter (fun e => k < e.1)
  sorted := by
    rw [List.pairwise_append, List.pairwise_cons]
    refine ⟨m.sorted.filter _, ⟨?_, m.sorted.filter _⟩, ?_⟩
    · intro e he
      simpa using (List.mem_filter.mp he).2
    · intro a ha b hb
      have hak : a.1 < k := by simpa using (List.mem_filter.mp ha).2
      rcases List.mem_cons.mp hb with rfl | hb
      · exact hak
      · exact hak.trans (by simpa using (List.mem_filter.mp hb).2)

/-- The same keys with other values. -/
def mapValues {W : Type} (m : SortedMap K V) (f : V → W) : SortedMap K W where
  entries := m.entries.map fun e => (e.1, f e.2)
  sorted := List.pairwise_map.mpr m.sorted

/-- The first entry, in key order, that passes `p`. -/
def findIf? (m : SortedMap K V) (p : K → V → Bool) : Option (K × V) :=
  m.entries.find? (fun e => p e.1 e.2)

/-- The first least entry for the strict order `lt` on entries. -/
def minElement? (m : SortedMap K V) (lt : K × V → K × V → Bool) : Option (K × V) :=
  m.entries.foldl (fun best e =>
    match best with
    | none => some e
    | some b => if lt e b then some e else some b) none

/-! ### Lookup is membership -/

theorem nodup_keys (m : SortedMap K V) : (m.entries.map Prod.fst).Nodup :=
  List.pairwise_map.mpr (m.sorted.imp fun h => h.ne)

variable {m : SortedMap K V} {k : K} {p : K → V → Bool}

theorem mem_entries_unique {v w : V} (hv : (k, v) ∈ m.entries) (hw : (k, w) ∈ m.entries) : v = w :=
  congrArg Prod.snd (List.inj_on_of_nodup_map m.nodup_keys hv hw rfl)

theorem find?_eq_some_iff {v : V} : m.find? k = some v ↔ (k, v) ∈ m.entries := by
  unfold find?
  rw [Option.map_eq_some_iff]
  constructor
  · rintro ⟨⟨k', v'⟩, hfind, rfl⟩
    have hk : k' = k := by simpa using List.find?_some hfind
    exact hk ▸ List.mem_of_find?_eq_some hfind
  · intro hmem
    cases hfind : m.entries.find? (fun e => decide (e.1 = k)) with
    | none =>
      have := List.find?_eq_none.mp hfind _ hmem
      simp at this
    | some e =>
      obtain ⟨k', v'⟩ := e
      have hk : k' = k := by simpa using List.find?_some hfind
      subst hk
      exact ⟨_, rfl, mem_entries_unique (List.mem_of_find?_eq_some hfind) hmem⟩

theorem contains_iff : m.contains k = true ↔ ∃ v, m.find? k = some v := by
  rw [contains, Option.isSome_iff_exists]

theorem contains_eq_false_iff : m.contains k = false ↔ m.find? k = none := by
  simp [contains]

theorem contains_of_find? {v : V} (h : m.find? k = some v) : m.contains k = true :=
  contains_iff.mpr ⟨v, h⟩

theorem ext_find? {m n : SortedMap K V} (h : ∀ k, m.find? k = n.find? k) : m = n := by
  apply eq_of_entries
  have hmem : ∀ e, e ∈ m.entries ↔ e ∈ n.entries := by
    rintro ⟨k, v⟩
    rw [← find?_eq_some_iff, ← find?_eq_some_iff, h]
  have hnodup (l : SortedMap K V) : l.entries.Nodup :=
    l.sorted.imp (fun hlt heq => absurd (heq ▸ hlt) (lt_irrefl _))
  have hperm : m.entries.Perm n.entries :=
    (List.perm_ext_iff_of_nodup (hnodup m) (hnodup n)).mpr hmem
  exact hperm.eq_of_pairwise (fun a b _ _ hab hba => absurd hab (not_lt.mpr hba.le)) m.sorted n.sorted

/-! ### Lookups after an operation -/

@[simp] theorem find?_empty (k : K) : (∅ : SortedMap K V).find? k = none := rfl

@[simp] theorem size_empty : (∅ : SortedMap K V).size = 0 := rfl

theorem find?_filter_eq_some_iff {v : V} : (m.filter p).find? k = some v ↔ m.find? k = some v ∧ p k v = true := by
  simp only [find?_eq_some_iff, filter, List.mem_filter]

@[simp] theorem find?_filter (m : SortedMap K V) (p : K → V → Bool) (k : K) :
    (m.filter p).find? k = (m.find? k).filter (p k) := by
  ext v
  rw [find?_filter_eq_some_iff, Option.filter_eq_some_iff]

@[simp] theorem find?_erase (m : SortedMap K V) (k k' : K) :
    (m.erase k).find? k' = if k' = k then none else m.find? k' := by
  ext v
  rw [erase, find?_filter_eq_some_iff]
  split_ifs with h <;> simp [h]

@[simp] theorem find?_insert (m : SortedMap K V) (k k' : K) (v : V) :
    (m.insert k v).find? k' = if k' = k then some v else m.find? k' := by
  ext w
  rw [find?_eq_some_iff, insert]
  simp only [List.mem_append, List.mem_cons, List.mem_filter, Prod.mk.injEq, decide_eq_true_eq,
    ← find?_eq_some_iff]
  split_ifs with h
  · subst h
    simp [eq_comm (a := w)]
  · rcases lt_or_gt_of_ne h with hlt | hgt
    · simp [h, hlt, hlt.not_gt]
    · simp [h, hgt, hgt.not_gt]

theorem find?_insert_eq_some_iff {k k' : K} {v w : V} :
    (m.insert k v).find? k' = some w ↔ (k' = k ∧ w = v) ∨ (k' ≠ k ∧ m.find? k' = some w) := by
  rw [find?_insert]
  split_ifs with h
  · simp [h, eq_comm (a := w)]
  · simp [h]

@[simp] theorem find?_mapValues {W : Type} (m : SortedMap K V) (f : V → W) (k : K) :
    (m.mapValues f).find? k = (m.find? k).map f := by
  ext w
  rw [find?_eq_some_iff, Option.map_eq_some_iff]
  simp only [mapValues, List.mem_map, Prod.mk.injEq, Prod.exists, find?_eq_some_iff]
  constructor
  · rintro ⟨k', v, hmem, rfl, rfl⟩
    exact ⟨v, hmem, rfl⟩
  · rintro ⟨v, hmem, rfl⟩
    exact ⟨k, v, hmem, rfl, rfl⟩

@[simp] theorem contains_insert (m : SortedMap K V) (k k' : K) (v : V) :
    (m.insert k v).contains k' = (decide (k' = k) || m.contains k') := by
  unfold contains
  rw [find?_insert]
  split_ifs with h <;> simp [h]

@[simp] theorem contains_erase (m : SortedMap K V) (k k' : K) :
    (m.erase k).contains k' = (!decide (k' = k) && m.contains k') := by
  unfold contains
  rw [find?_erase]
  split_ifs with h <;> simp [h]

theorem contains_of_contains_filter (h : (m.filter p).contains k = true) : m.contains k = true := by
  obtain ⟨v, hv⟩ := contains_iff.mp h
  exact contains_of_find? (find?_filter_eq_some_iff.mp hv).1

theorem filter_eq_self (h : ∀ k v, m.find? k = some v → p k v = true) : m.filter p = m := by
  apply ext_find?
  intro k
  ext v
  rw [find?_filter_eq_some_iff]
  exact ⟨fun hv => hv.1, fun hv => ⟨hv, h k v hv⟩⟩

theorem filter_eq_self_iff : m.filter p = m ↔ ∀ k v, m.find? k = some v → p k v = true := by
  refine ⟨fun h k v hv => ?_, filter_eq_self⟩
  rw [← h] at hv
  exact (find?_filter_eq_some_iff.mp hv).2

theorem filter_comm (m : SortedMap K V) (p q : K → V → Bool) : (m.filter p).filter q = (m.filter q).filter p := by
  apply ext_find?
  intro k
  ext v
  simp only [find?_filter_eq_some_iff]
  exact and_right_comm

theorem filter_filter_of_imp {p q : K → V → Bool}
    (h : ∀ k v, q k v = true → p k v = true) : (m.filter p).filter q = m.filter q := by
  apply ext_find?
  intro k
  ext v
  simp only [find?_filter_eq_some_iff]
  exact ⟨fun hv => ⟨hv.1.1, hv.2⟩, fun hv => ⟨⟨hv.1, h k v hv.2⟩, hv.2⟩⟩

theorem erase_eq_self (h : m.find? k = none) : m.erase k = m := by
  apply filter_eq_self
  rintro k' v hv
  have hne : k' ≠ k := by
    rintro rfl
    rw [h] at hv
    exact absurd hv (by simp)
  simpa using hne

theorem filter_erase_of_not (h : ∀ v, m.find? k = some v → p k v = false) : (m.erase k).filter p = m.filter p := by
  have hswap : (m.erase k).filter p = (m.filter p).erase k := filter_comm m _ p
  rw [hswap]
  apply erase_eq_self
  cases hfind : (m.filter p).find? k with
  | none => rfl
  | some v =>
    obtain ⟨hv, hp⟩ := find?_filter_eq_some_iff.mp hfind
    exact absurd ((h v hv).symm.trans hp) (by simp)

theorem erase_insert_self {v : V} (h : m.find? k = none) : (m.insert k v).erase k = m := by
  apply ext_find?
  intro k'
  by_cases hk : k' = k
  · subst hk
    simp [h]
  · simp [hk]

/-! ### Submaps -/

/-- Every entry of `m` is an entry of `n`. -/
instance : HasSubset (SortedMap K V) := ⟨fun m n => m.entries.Sublist n.entries⟩

theorem subset_refl (m : SortedMap K V) : m ⊆ m := List.Sublist.refl _

theorem subset_trans {l m n : SortedMap K V} (h : l ⊆ m) (h' : m ⊆ n) : l ⊆ n := List.Sublist.trans h h'

theorem filter_subset (m : SortedMap K V) (p : K → V → Bool) : m.filter p ⊆ m := List.filter_sublist

theorem erase_subset (m : SortedMap K V) (k : K) : m.erase k ⊆ m := filter_subset m _

theorem find?_of_subset {m n : SortedMap K V} (h : m ⊆ n) {v : V} (hm : m.find? k = some v) : n.find? k = some v :=
  find?_eq_some_iff.mpr (List.Sublist.mem (find?_eq_some_iff.mp hm) h)

theorem contains_of_subset {m n : SortedMap K V} (h : m ⊆ n) (hm : m.contains k = true) : n.contains k = true := by
  obtain ⟨v, hv⟩ := contains_iff.mp hm
  exact contains_of_find? (find?_of_subset h hv)

theorem size_le_of_subset {m n : SortedMap K V} (h : m ⊆ n) : m.size ≤ n.size := List.Sublist.length_le h

/-! ### Sizes -/

theorem size_filter_le (m : SortedMap K V) (p : K → V → Bool) : (m.filter p).size ≤ m.size :=
  List.length_filter_le _ _

theorem size_erase_le (m : SortedMap K V) (k : K) : (m.erase k).size ≤ m.size := size_filter_le m _

theorem size_erase_lt (h : m.contains k = true) : (m.erase k).size < m.size := by
  obtain ⟨v, hv⟩ := contains_iff.mp h
  refine List.length_filter_lt_length_iff_exists.mpr ⟨(k, v), find?_eq_some_iff.mp hv, ?_⟩
  simp

theorem filter_lt_append_filter_gt (m : SortedMap K V) (k : K) :
    m.entries.filter (fun e => e.1 < k) ++ m.entries.filter (fun e => k < e.1) = (m.erase k).entries := by
  have hsplit : ∀ l : List (K × V), l.Pairwise (fun a b => a.1 < b.1) →
      l.filter (fun e => e.1 < k) ++ l.filter (fun e => k < e.1) = l.filter (fun e => e.1 ≠ k) := by
    intro l hsorted
    induction hsorted with
    | nil => rfl
    | @cons e rest hall _ ih =>
      by_cases hlt : e.1 < k
      · simpa [hlt, hlt.ne, hlt.not_gt] using ih
      · -- nothing that follows is before the key
        have hnil : rest.filter (fun e => decide (e.1 < k)) = [] :=
          List.filter_eq_nil_iff.mpr fun e' he' => by
            simpa using (not_lt.mp hlt).trans (hall e' he').le
        rw [hnil, List.nil_append] at ih
        rcases (not_lt.mp hlt).eq_or_lt with heq | hgt
        · simpa [heq.symm, hnil] using ih
        · simpa [hlt, hgt, hgt.ne', hnil] using ih
  exact hsplit m.entries m.sorted

theorem size_insert (m : SortedMap K V) (k : K) (v : V) : (m.insert k v).size = (m.erase k).size + 1 := by
  have hlength := congrArg List.length (m.filter_lt_append_filter_gt k)
  rw [List.length_append] at hlength
  simp only [insert, size, List.length_append, List.length_cons]
  omega

theorem entries_insert_of_absent (h : m.find? k = none) :
    ∃ front back, m.entries = front ++ back ∧ ∀ v, (m.insert k v).entries = front ++ (k, v) :: back := by
  refine ⟨m.entries.filter fun e => e.1 < k, m.entries.filter fun e => k < e.1, ?_, fun v => rfl⟩
  rw [filter_lt_append_filter_gt, erase_eq_self h]

theorem entries_filter_key {v : V} (h : m.find? k = some v) : (m.filter fun k' _ => k' = k).entries = [(k, v)] := by
  have hsingle : (m.filter fun k' _ => k' = k) = (∅ : SortedMap K V).insert k v := by
    apply ext_find?
    intro k'
    rw [find?_filter, find?_insert]
    split_ifs with hk
    · subst hk
      simp [h]
    · cases m.find? k' <;> simp [hk]
  rw [hsingle]
  rfl

theorem insert_of_find? {v : V} (h : m.find? k = some v) : m.insert k v = m := by
  apply ext_find?
  intro k'
  rw [find?_insert]
  split_ifs with hk
  · rw [hk, h]
  · rfl

theorem entries_insert_of_find? {w : V} (h : m.find? k = some w) :
    ∃ front back, m.entries = front ++ (k, w) :: back ∧
      ∀ v, (m.insert k v).entries = front ++ (k, v) :: back :=
  ⟨_, _, congrArg entries (insert_of_find? h).symm, fun _ => rfl⟩

theorem size_insert_le (m : SortedMap K V) (k : K) (v : V) : (m.insert k v).size ≤ m.size + 1 := by
  rw [size_insert]
  exact Nat.add_le_add_right (size_erase_le m k) 1

theorem size_insert_of_contains (v : V) (h : m.contains k = true) : (m.insert k v).size ≤ m.size := by
  rw [size_insert]
  exact size_erase_lt h

/-! ### Searches -/

theorem findIf?_eq_some {v : V} (h : m.findIf? p = some (k, v)) : m.find? k = some v ∧ p k v = true :=
  ⟨find?_eq_some_iff.mpr (List.mem_of_find?_eq_some h), by simpa using List.find?_some h⟩

theorem findIf?_eq_none_iff : m.findIf? p = none ↔ ∀ k v, m.find? k = some v → p k v = false := by
  unfold findIf?
  rw [List.find?_eq_none]
  constructor
  · intro h k v hv
    simpa using h (k, v) (find?_eq_some_iff.mp hv)
  · rintro h ⟨k, v⟩ he
    simpa using h k v (find?_eq_some_iff.mpr he)

theorem minElement?_mem {lt : K × V → K × V → Bool} {v : V}
    (h : m.minElement? lt = some (k, v)) : m.find? k = some v := by
  rw [find?_eq_some_iff]
  -- the accumulator is always an entry of the part already folded
  have hfold : ∀ (l : List (K × V)) (best : Option (K × V)) (e : K × V),
      l.foldl (fun best e =>
        match best with
        | none => some e
        | some b => if lt e b then some e else some b) best = some e →
      best = some e ∨ e ∈ l := by
    intro l
    induction l with
    | nil => intro best e h; exact Or.inl h
    | cons e' rest ih =>
      intro best e h
      rcases ih _ e h with hhead | hrest
      · cases best with
        | none => exact Or.inr (by simpa using Or.inl (Option.some.inj hhead).symm)
        | some b =>
          simp only at hhead
          split_ifs at hhead
          · exact Or.inr (by simpa using Or.inl (Option.some.inj hhead).symm)
          · exact Or.inl hhead
      · exact Or.inr (List.mem_cons_of_mem _ hrest)
  rcases hfold m.entries none (k, v) h with h | h
  · exact absurd h (by simp)
  · exact h

theorem minElement?_isSome (lt : K × V → K × V → Bool) (h : 0 < m.size) : ∃ e, m.minElement? lt = some e := by
  have hfold : ∀ (l : List (K × V)) (b : K × V), ∃ e,
      l.foldl (fun best e =>
        match best with
        | none => some e
        | some b => if lt e b then some e else some b) (some b) = some e := by
    intro l
    induction l with
    | nil => intro b; exact ⟨b, rfl⟩
    | cons e' rest ih =>
      intro b
      simp only [List.foldl_cons]
      split_ifs
      · exact ih e'
      · exact ih b
  unfold minElement?
  unfold size at h
  cases hm : m.entries with
  | nil => rw [hm] at h; simp at h
  | cons e rest => exact hfold rest e

end SortedMap
