import Aegis.Lib.Bitmap
import Aegis.File.Messages

/-!
# The receiver's chunk tracker

`FileChunkTracker`: which chunks of a file have arrived, how many, and how far they are contiguous from the
start. `WellFormed` says that the two counters agree with the flags, and `acknowledgedRanges_sound` that an
acknowledgement names received chunks only.
-/

namespace Aegis

inductive FileChunkReceipt where
  | accepted
  | duplicate
  | outOfRange
deriving DecidableEq

structure FileChunkTracker where
  received : List Bool := []
  receivedCount : Nat := 0
  contiguousReceived : Nat := 0
deriving DecidableEq

namespace FileChunkTracker

def reset (totalChunks : Nat) : Option FileChunkTracker :=
  if totalChunks = 0 ∨ FILE_TRANSFER_MAX_CHUNKS < totalChunks then none
  else some ⟨List.replicate totalChunks false, 0, 0⟩

def record (tracker : FileChunkTracker) (chunkIndex : Nat) : FileChunkTracker × FileChunkReceipt :=
  if tracker.received.length ≤ chunkIndex then (tracker, .outOfRange)
  else if Bitmap.get tracker.received chunkIndex then (tracker, .duplicate)
  else
    let received := tracker.received.set chunkIndex true
    (⟨received, tracker.receivedCount + 1, Bitmap.scan true received tracker.contiguousReceived⟩, .accepted)

def remove (tracker : FileChunkTracker) (chunkIndex : Nat) : FileChunkTracker × Bool :=
  if !Bitmap.get tracker.received chunkIndex then (tracker, false)
  else
    let received := tracker.received.set chunkIndex false
    let contiguousReceived :=
      if chunkIndex < tracker.contiguousReceived then Bitmap.scan true received 0
      else tracker.contiguousReceived
    (⟨received, tracker.receivedCount - 1, contiguousReceived⟩, true)

def complete (tracker : FileChunkTracker) : Bool :=
  !tracker.received.isEmpty && tracker.receivedCount = tracker.received.length

/-- At most `budget` runs of received chunks from `index` on. -/
def collectRanges (received : List Bool) : Nat → Nat → List FileAckRange
  | 0, _ => []
  | budget + 1, index =>
    let first := Bitmap.scan false received index
    if received.length ≤ first then []
    else
      let stop := Bitmap.scan true received first
      ⟨first, stop - first⟩ :: collectRanges received budget stop

/-- The run of received chunks around `focus`. -/
def focusRange (tracker : FileChunkTracker) (focus : Nat) : FileAckRange :=
  let first := Bitmap.scanBack tracker.received tracker.contiguousReceived focus
  ⟨first, Bitmap.scan true tracker.received (focus + 1) - first⟩

/-- The chunks received without a gap, if any. -/
def contiguousRange (tracker : FileChunkTracker) : List FileAckRange :=
  if 0 < tracker.contiguousReceived then [⟨0, tracker.contiguousReceived⟩] else []

def acknowledgedRanges (tracker : FileChunkTracker) (focus : Option Nat) (maximum : Nat) : List FileAckRange :=
  if maximum = 0 then []
  else
    let ranges := tracker.contiguousRange
    match focus with
    | none => ranges ++ collectRanges tracker.received (maximum - ranges.length) tracker.contiguousReceived
    | some focus =>
      if !Bitmap.get tracker.received focus || focus < tracker.contiguousReceived ||
          maximum ≤ ranges.length then ranges
      else ranges ++ [tracker.focusRange focus]

/-! ### The counters agree with the flags -/

/-- The count is that of the flags, and the contiguous chunks are received. -/
structure WellFormed (tracker : FileChunkTracker) : Prop where
  count : tracker.receivedCount = tracker.received.count true
  contiguous : ∀ i < tracker.contiguousReceived, Bitmap.get tracker.received i = true

variable {tracker : FileChunkTracker} {chunkIndex : Nat}

theorem reset_wellFormed {totalChunks : Nat} {tracker : FileChunkTracker} (h : reset totalChunks = some tracker) :
    tracker.WellFormed ∧ tracker.received = List.replicate totalChunks false := by
  unfold reset at h
  split_ifs at h
  obtain rfl := (Option.some.inj h).symm
  exact ⟨⟨by simp [List.count_replicate], by simp⟩, rfl⟩

theorem record_of_missing (hlt : chunkIndex < tracker.received.length)
    (hmissing : Bitmap.get tracker.received chunkIndex = false) :
    tracker.record chunkIndex =
      (⟨tracker.received.set chunkIndex true, tracker.receivedCount + 1,
        Bitmap.scan true (tracker.received.set chunkIndex true) tracker.contiguousReceived⟩, .accepted) := by
  simp [record, Nat.not_le.mpr hlt, hmissing]

theorem WellFormed.record (h : tracker.WellFormed) (chunkIndex : Nat) : (tracker.record chunkIndex).1.WellFormed := by
  unfold FileChunkTracker.record
  split_ifs with hrange hreceived
  · exact h
  · exact h
  · have hlt : chunkIndex < tracker.received.length := Nat.not_le.mp hrange
    constructor
    · rw [Bitmap.count_set_true hlt (by simpa using hreceived), h.count]
    · intro i hi
      rcases Nat.lt_or_ge i tracker.contiguousReceived with hlow | hhigh
      · rw [Bitmap.get_set]
        split_ifs
        · rfl
        · exact h.contiguous i hlow
      · exact Bitmap.get_of_lt_scan hhigh hi

theorem WellFormed.remove (h : tracker.WellFormed) (chunkIndex : Nat) : (tracker.remove chunkIndex).1.WellFormed := by
  unfold FileChunkTracker.remove
  split_ifs with hmissing hbelow
  · exact h
  · have hcount := Bitmap.count_set_false (i := chunkIndex) (by simpa using hmissing)
    refine ⟨?_, fun i hi => Bitmap.get_of_lt_scan (Nat.zero_le i) hi⟩
    have := h.count
    simp only
    omega
  · have hcount := Bitmap.count_set_false (i := chunkIndex) (by simpa using hmissing)
    refine ⟨?_, fun i hi => ?_⟩
    · have := h.count
      simp only
      omega
    · simp only at hi
      rw [Bitmap.get_set, if_neg (by omega)]
      exact h.contiguous i hi

theorem WellFormed.complete_iff (h : tracker.WellFormed) (hpos : 0 < tracker.received.length) :
    tracker.complete = true ↔ ∀ i < tracker.received.length, Bitmap.get tracker.received i = true := by
  have hne : tracker.received.isEmpty = false := by
    simpa [List.isEmpty_iff, ← List.length_eq_zero_iff] using Nat.ne_of_gt hpos
  simp only [complete, hne, Bool.not_false, Bool.true_and, decide_eq_true_eq, h.count]
  exact ⟨fun hcount i hi => Bitmap.get_of_count_eq_length hcount hi, Bitmap.count_eq_length_of_get⟩

/-! ### What an acknowledgement names -/

theorem collectRanges_sound {received : List Bool} {budget index i : Nat} {range : FileAckRange}
    (hrange : range ∈ collectRanges received budget index) (hi : range.Holds i) : Bitmap.get received i = true := by
  induction budget generalizing index with
  | zero => simp [collectRanges] at hrange
  | succ budget ih =>
    simp only [collectRanges] at hrange
    split_ifs at hrange
    · simp at hrange
    · rcases List.mem_cons.mp hrange with rfl | hrange
      · obtain ⟨hge, hlt⟩ := hi
        have hle := Bitmap.le_scan true received (Bitmap.scan false received index)
        simp only at hge hlt
        rw [Nat.add_sub_cancel' hle] at hlt
        exact Bitmap.get_of_lt_scan hge hlt
      · exact ih hrange

theorem focusRange_sound {focus i : Nat} (hfocus : Bitmap.get tracker.received focus = true)
    (hi : (tracker.focusRange focus).Holds i) : Bitmap.get tracker.received i = true := by
  obtain ⟨hge, hlt⟩ := hi
  have hlow := Bitmap.scanBack_le tracker.received tracker.contiguousReceived focus
  have hhigh := Bitmap.le_scan true tracker.received (focus + 1)
  simp only [focusRange] at hge hlt
  rcases Nat.lt_trichotomy i focus with hbelow | rfl | habove
  · exact Bitmap.get_of_scanBack_le hge hbelow
  · exact hfocus
  · rw [Nat.add_sub_cancel' (by omega)] at hlt
    exact Bitmap.get_of_lt_scan habove hlt

theorem acknowledgedRanges_sound (h : tracker.WellFormed) {focus : Option Nat} {maximum i : Nat}
    {range : FileAckRange} (hrange : range ∈ tracker.acknowledgedRanges focus maximum) (hi : range.Holds i) :
    Bitmap.get tracker.received i = true := by
  have hcontiguous (hr : range ∈ tracker.contiguousRange) : Bitmap.get tracker.received i = true := by
    unfold contiguousRange at hr
    split_ifs at hr
    · rw [List.mem_singleton.mp hr] at hi
      exact h.contiguous i (by simpa [FileAckRange.Holds] using hi)
    · simp at hr
  unfold acknowledgedRanges at hrange
  split_ifs at hrange with hzero
  · simp at hrange
  · cases focus with
    | none =>
      rcases List.mem_append.mp hrange with hr | hr
      · exact hcontiguous hr
      · exact collectRanges_sound hr hi
    | some focus =>
      simp only at hrange
      split_ifs at hrange with hskip
      · exact hcontiguous hrange
      · rcases List.mem_append.mp hrange with hr | hr
        · exact hcontiguous hr
        · rw [List.mem_singleton.mp hr] at hi
          refine focusRange_sound ?_ hi
          simp only [Bool.or_eq_true, not_or, Bool.not_eq_true', Bool.not_eq_false] at hskip
          exact hskip.1.1

end FileChunkTracker

end Aegis
