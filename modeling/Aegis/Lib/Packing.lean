import Mathlib.Data.List.Basic

/-!
# Greedy packing

Items are packed in order. An item joins the batch that is being filled if they fit together, and otherwise that
batch is closed and the item starts the next one. Whatever `fits` is, packing only cuts the row of items. If every
item fits on its own, every batch fits: a batch grows only by items that fit with it.

`slices` cuts a list into a given number of pieces of one length.
-/

namespace Packing

variable {α : Type}

/-- The closed batches and the one that is being filled. -/
structure Packer (α : Type) where
  packed : List (List α) := []
  current : List α := []

namespace Packer

def flush (s : Packer α) : Packer α := if s.current.isEmpty then s else ⟨s.packed ++ [s.current], []⟩

def add (fits : List α → Bool) (s : Packer α) (item : α) : Packer α :=
  let s := if fits (s.current ++ [item]) then s else s.flush
  { s with current := s.current ++ [item] }

/-- The packer holds these items, in batches that fit. -/
structure Holds (fits : List α → Bool) (s : Packer α) (items : List α) : Prop where
  items : s.packed.flatten ++ s.current = items
  packed : ∀ batch ∈ s.packed, batch ≠ [] ∧ fits batch = true
  current : s.current = [] ∨ fits s.current = true

variable {fits : List α → Bool} {s : Packer α} {items : List α} {item : α}

theorem current_flush (s : Packer α) : s.flush.current = [] := by
  unfold flush
  split_ifs with hempty
  · exact List.isEmpty_iff.mp hempty
  · rfl

theorem Holds.flush (h : Holds fits s items) : Holds fits s.flush items := by
  unfold Packer.flush
  split_ifs with hempty
  · exact h
  · have hsome : s.current ≠ [] := fun hnil => hempty (List.isEmpty_iff.mpr hnil)
    refine ⟨?_, fun batch hbatch => ?_, Or.inl rfl⟩
    · rw [List.flatten_append, List.flatten_singleton, List.append_nil]
      exact h.items
    · rcases List.mem_append.mp hbatch with hbatch | hbatch
      · exact h.packed batch hbatch
      · rw [List.mem_singleton.mp hbatch]
        exact ⟨hsome, h.current.resolve_left hsome⟩

theorem Holds.add (h : Holds fits s items) (hitem : fits [item] = true) :
    Holds fits (s.add fits item) (items ++ [item]) := by
  -- after the choice the item fits with what is left in the batch
  have hpush {t : Packer α} (ht : Holds fits t items) (hfits : fits (t.current ++ [item]) = true) :
      Holds fits { t with current := t.current ++ [item] } (items ++ [item]) :=
    ⟨by rw [← List.append_assoc, ht.items], ht.packed, Or.inr hfits⟩
  unfold Packer.add
  dsimp only
  split_ifs with hroom
  · exact hpush h hroom
  · refine hpush h.flush ?_
    rw [current_flush, List.nil_append]
    exact hitem

theorem Holds.foldl (h : Holds fits s items) {more : List α} (hmore : ∀ item ∈ more, fits [item] = true) :
    Holds fits (more.foldl (Packer.add fits) s) (items ++ more) := by
  induction more generalizing s items with
  | nil =>
    rw [List.append_nil]
    exact h
  | cons item more ih =>
    obtain ⟨hitem, hrest⟩ := List.forall_mem_cons.mp hmore
    have hnext := ih (h.add hitem) hrest
    rwa [List.append_assoc, List.singleton_append] at hnext

end Packer

def pack (fits : List α → Bool) (items : List α) : List (List α) :=
  (items.foldl (Packer.add fits) {}).flush.packed

/-- The batches are the items in a row, cut into batches that fit. -/
theorem pack_spec {fits : List α → Bool} {items : List α} (h : ∀ item ∈ items, fits [item] = true) :
    (pack fits items).flatten = items ∧ ∀ batch ∈ pack fits items, batch ≠ [] ∧ fits batch = true := by
  have hstart : Packer.Holds fits {} [] := ⟨rfl, by simp, Or.inl rfl⟩
  have hend := (hstart.foldl h).flush
  refine ⟨?_, hend.packed⟩
  have hitems := hend.items
  rwa [Packer.current_flush, List.append_nil, List.nil_append] at hitems

/-- The first `n` pieces of length `k`. -/
def slices (k n : Nat) (l : List α) : List (List α) := (List.range n).map fun i => (l.drop (i * k)).take k

theorem flatten_slices (k n : Nat) (l : List α) : (slices k n l).flatten = l.take (n * k) := by
  induction n with
  | zero => simp [slices]
  | succ n ih =>
    rw [slices] at ih ⊢
    rw [List.range_succ, List.map_append, List.flatten_append, ih, List.map_singleton, List.flatten_singleton,
      Nat.succ_mul, List.take_add]

end Packing
