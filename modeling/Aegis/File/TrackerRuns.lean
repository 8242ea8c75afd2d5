import Aegis.Lib.Run
import Aegis.File.AckCodec
import Aegis.File.Tracker
import Mathlib.Data.Finset.Card

/-!
# Whole runs of the chunk tracker

What the tracker is for is a set of chunk numbers: recording a chunk of the file adds it and removing one takes
it out (`held`). `Exact` says that the tracker's flags, its count and its contiguous part are those of the set,
and every operation keeps it. An acknowledgement is the contiguous part followed by runs of later chunks, so
its ranges are in order, hold chunks of the set only, and all of them when there was room.
-/

namespace Aegis

namespace FileChunkTracker

inductive Op where
  | record (chunkIndex : Nat)
  | remove (chunkIndex : Nat)

def step (tracker : FileChunkTracker) : Op → FileChunkTracker
  | .record chunkIndex => (tracker.record chunkIndex).1
  | .remove chunkIndex => (tracker.remove chunkIndex).1

def run (tracker : FileChunkTracker) (ops : List Op) : FileChunkTracker := ops.foldl step tracker

/-- What an operation does to the set of chunks of a file that has `total` of them. -/
def heldStep (total : Nat) (chunks : Finset Nat) : Op → Finset Nat
  | .record chunkIndex => if chunkIndex < total then insert chunkIndex chunks else chunks
  | .remove chunkIndex => chunks.erase chunkIndex

/-- The chunks that some operations leave recorded. -/
def held (total : Nat) (ops : List Op) : Finset Nat := ops.foldl (heldStep total) ∅

/-- The tracker of a file with `total` chunks holds exactly the chunks of the set. -/
structure Exact (total : Nat) (tracker : FileChunkTracker) (chunks : Finset Nat) : Prop where
  wellFormed : tracker.WellFormed
  length : tracker.received.length = total
  flags : ∀ i, Bitmap.get tracker.received i = true ↔ i ∈ chunks
  count : tracker.receivedCount = chunks.card
  stop : tracker.contiguousReceived ∉ chunks

variable {total chunkIndex i : Nat} {tracker : FileChunkTracker} {chunks : Finset Nat}

namespace Exact

theorem of_reset (h : reset total = some tracker) : Exact total tracker ∅ := by
  obtain ⟨hwf, hreceived⟩ := reset_wellFormed h
  unfold reset at h
  split_ifs at h
  obtain rfl := (Option.some.inj h).symm
  exact ⟨hwf, by simp, by simp, rfl, by simp⟩

theorem record (h : Exact total tracker chunks) (chunkIndex : Nat) :
    Exact total (tracker.record chunkIndex).1 (heldStep total chunks (.record chunkIndex)) := by
  have hwf := h.wellFormed.record chunkIndex
  simp only [heldStep]
  unfold FileChunkTracker.record at hwf ⊢
  rw [h.length] at hwf ⊢
  by_cases hlt : chunkIndex < total
  · rw [if_neg (Nat.not_le.mpr hlt)] at hwf ⊢
    simp only [if_pos hlt]
    by_cases hreceived : Bitmap.get tracker.received chunkIndex = true
    · rw [if_pos hreceived, Finset.insert_eq_of_mem ((h.flags _).mp hreceived)]
      exact h
    · rw [if_neg hreceived] at hwf ⊢
      have hnew : chunkIndex ∉ chunks := fun hmem => hreceived ((h.flags _).mpr hmem)
      have hflags : ∀ i, Bitmap.get (tracker.received.set chunkIndex true) i = true ↔ i ∈ insert chunkIndex chunks := by
        intro i
        rw [Bitmap.get_set, Finset.mem_insert, ← h.flags i, h.length]
        by_cases hi : chunkIndex = i
        · subst hi
          simp [hlt]
        · simp [hi, Ne.symm hi]
      refine ⟨hwf, by simp [h.length], hflags, ?_, ?_⟩
      · rw [Finset.card_insert_of_notMem hnew, ← h.count]
      · rw [← hflags, Bitmap.get_scan_true]
        simp
  · rw [if_pos (Nat.not_lt.mp hlt), if_neg hlt]
    exact h

theorem remove (h : Exact total tracker chunks) (chunkIndex : Nat) :
    Exact total (tracker.remove chunkIndex).1 (heldStep total chunks (.remove chunkIndex)) := by
  have hwf := h.wellFormed.remove chunkIndex
  simp only [heldStep]
  unfold FileChunkTracker.remove at hwf ⊢
  by_cases hmissing : Bitmap.get tracker.received chunkIndex = true
  · simp only [hmissing, Bool.not_true, Bool.false_eq_true, if_false] at hwf ⊢
    have hmem : chunkIndex ∈ chunks := (h.flags _).mp hmissing
    have hflags : ∀ i, Bitmap.get (tracker.received.set chunkIndex false) i = true ↔ i ∈ chunks.erase chunkIndex := by
      intro i
      rw [Bitmap.get_set, Finset.mem_erase, ← h.flags i]
      by_cases hi : chunkIndex = i
      · subst hi
        simp [Bitmap.lt_of_get hmissing]
      · simp [hi, Ne.symm hi]
    refine ⟨hwf, by simp [h.length], hflags, ?_, ?_⟩
    · rw [Finset.card_erase_of_mem hmem, ← h.count]
    · simp only
      split_ifs with hbelow
      · rw [← hflags, Bitmap.get_scan_true]
        simp
      · exact fun hstop => h.stop (Finset.mem_of_mem_erase hstop)
  · have hnot : chunkIndex ∉ chunks := fun hmem => hmissing ((h.flags _).mpr hmem)
    simp only [Bool.not_eq_true] at hmissing
    rw [Finset.erase_eq_of_notMem hnot]
    simpa [hmissing] using h

theorem step (h : Exact total tracker chunks) (op : Op) : Exact total (tracker.step op) (heldStep total chunks op) := by
  cases op with
  | record chunkIndex => exact h.record chunkIndex
  | remove chunkIndex => exact h.remove chunkIndex

theorem run (h : Exact total tracker ∅) (ops : List Op) : Exact total (tracker.run ops) (held total ops) :=
  Run.simulation (Exact total) (fun _ _ op h => h.step op) h ops

theorem contiguous_iff (h : Exact total tracker chunks) (n : Nat) :
    (∀ i < n, i ∈ chunks) ↔ n ≤ tracker.contiguousReceived := by
  constructor
  · intro hn
    by_contra hlt
    exact h.stop (hn _ (Nat.not_le.mp hlt))
  · intro hn i hi
    exact (h.flags i).mp (h.wellFormed.contiguous i (Nat.lt_of_lt_of_le hi hn))

theorem contiguous_le (h : Exact total tracker chunks) : tracker.contiguousReceived ≤ total := by
  by_contra hlt
  have hget := h.wellFormed.contiguous total (Nat.not_le.mp hlt)
  rw [Bitmap.get_of_le (Nat.le_of_eq h.length)] at hget
  exact absurd hget (by simp)

end Exact

/-! ### The runs of an acknowledgement -/

/-- Ranges of a file with `total` chunks, from `low` on. -/
def Within (low total : Nat) (ranges : List FileAckRange) : Prop :=
  FileAckRange.Ordered ranges ∧ ∀ range ∈ ranges, low ≤ range.first ∧ range.stop ≤ total

theorem within_nil (low total : Nat) : Within low total [] := ⟨⟨by simp, List.Pairwise.nil⟩, by simp⟩

theorem Within.cons {low stop total : Nat} {range : FileAckRange} {ranges : List FileAckRange}
    (h : Within stop total ranges) (hlow : low ≤ range.first) (hcount : 0 < range.count)
    (hrange : range.stop = stop) (hstop : stop ≤ total) : Within low total (range :: ranges) := by
  subst hrange
  obtain ⟨⟨hcounts, horder⟩, hbounds⟩ := h
  refine ⟨⟨?_, List.pairwise_cons.mpr ⟨fun later hlater => (hbounds later hlater).1, horder⟩⟩, ?_⟩
  · exact List.forall_mem_cons.mpr ⟨hcount, hcounts⟩
  · refine List.forall_mem_cons.mpr ⟨⟨hlow, hstop⟩, fun later hlater => ?_⟩
    have hstart := (hbounds later hlater).1
    unfold FileAckRange.stop at hstart
    exact ⟨by omega, (hbounds later hlater).2⟩

variable {received : List Bool} {budget index : Nat}

theorem scan_run (h : ¬received.length ≤ Bitmap.scan false received index) :
    Bitmap.scan false received index < Bitmap.scan true received (Bitmap.scan false received index) ∧
      Bitmap.scan true received (Bitmap.scan false received index) ≤ received.length := by
  rw [Nat.not_le] at h
  exact ⟨Bitmap.lt_scan_true (Bitmap.get_scan false h), Bitmap.scan_le true (Nat.le_of_lt h)⟩

theorem within_collectRanges (received : List Bool) (budget index : Nat) :
    Within index received.length (collectRanges received budget index) := by
  induction budget generalizing index with
  | zero => exact within_nil _ _
  | succ budget ih =>
    simp only [collectRanges]
    split_ifs with hend
    · exact within_nil _ _
    · obtain ⟨hlt, hle⟩ := scan_run hend
      refine (ih _).cons (Bitmap.le_scan false received index) ?_ ?_ hle
      · exact Nat.sub_pos_of_lt hlt
      · exact Nat.add_sub_cancel' (Nat.le_of_lt hlt)

theorem length_collectRanges_le (received : List Bool) (budget index : Nat) :
    (collectRanges received budget index).length ≤ budget := by
  induction budget generalizing index with
  | zero => simp [collectRanges]
  | succ budget ih =>
    simp only [collectRanges]
    split_ifs
    · simp
    · exact Nat.succ_le_succ (ih _)

theorem collectRanges_complete (hroom : (collectRanges received budget index).length < budget) (hi : index ≤ i)
    (hreceived : Bitmap.get received i = true) : ∃ range ∈ collectRanges received budget index, range.Holds i := by
  induction budget generalizing index with
  | zero => simp at hroom
  | succ budget ih =>
    have hfirst : Bitmap.scan false received index ≤ i := by
      by_contra hlt
      rw [Bitmap.get_of_lt_scan hi (Nat.not_le.mp hlt)] at hreceived
      exact absurd hreceived (by simp)
    have hlength := Bitmap.lt_of_get hreceived
    simp only [collectRanges] at hroom ⊢
    split_ifs at hroom ⊢ with hend
    · omega
    · obtain ⟨hlt, -⟩ := scan_run hend
      rcases Nat.lt_or_ge i (Bitmap.scan true received (Bitmap.scan false received index)) with hinside | hafter
      · refine ⟨_, List.mem_cons_self, hfirst, ?_⟩
        simp only
        omega
      · obtain ⟨range, hrange, hholds⟩ := ih (by simpa using hroom) hafter
        exact ⟨range, List.mem_cons_of_mem _ hrange, hholds⟩

theorem within_focusRange {focus : Nat} (hfocus : Bitmap.get tracker.received focus = true)
    (hlow : tracker.contiguousReceived ≤ focus) :
    Within tracker.contiguousReceived tracker.received.length [tracker.focusRange focus] := by
  have hfirst := Bitmap.scanBack_le tracker.received tracker.contiguousReceived focus
  have hafter := Bitmap.le_scan true tracker.received (focus + 1)
  have hlt : Bitmap.scanBack tracker.received tracker.contiguousReceived focus
      < Bitmap.scan true tracker.received (focus + 1) := by omega
  exact (within_nil _ _).cons (Bitmap.le_scanBack hlow) (Nat.sub_pos_of_lt hlt)
    (Nat.add_sub_cancel' (Nat.le_of_lt hlt)) (Bitmap.scan_le true (Bitmap.lt_of_get hfocus))

theorem holds_focusRange (tracker : FileChunkTracker) (focus : Nat) : (tracker.focusRange focus).Holds focus := by
  have hfirst := Bitmap.scanBack_le tracker.received tracker.contiguousReceived focus
  have hafter := Bitmap.le_scan true tracker.received (focus + 1)
  refine ⟨hfirst, ?_⟩
  simp only [focusRange]
  omega

theorem length_contiguousRange_le (tracker : FileChunkTracker) : tracker.contiguousRange.length ≤ 1 := by
  unfold contiguousRange
  split_ifs
  · simp
  · simp

theorem holds_contiguousRange (hi : i < tracker.contiguousReceived) :
    ∃ range ∈ tracker.contiguousRange, range.Holds i := by
  have hpos : 0 < tracker.contiguousReceived := by omega
  refine ⟨⟨0, tracker.contiguousReceived⟩, by simp [contiguousRange, hpos], Nat.zero_le i, ?_⟩
  simpa using hi

theorem length_acknowledgedRanges_le (tracker : FileChunkTracker) (focus : Option Nat) (maximum : Nat) :
    (tracker.acknowledgedRanges focus maximum).length ≤ maximum := by
  have hone := tracker.length_contiguousRange_le
  unfold acknowledgedRanges
  split_ifs with hzero
  · simp
  · cases focus with
    | none =>
      have hrest := length_collectRanges_le tracker.received (maximum - tracker.contiguousRange.length)
        tracker.contiguousReceived
      simp only [List.length_append]
      omega
    | some focus =>
      simp only
      split_ifs with hskip
      · omega
      · simp only [Bool.or_eq_true, not_or, decide_eq_true_eq] at hskip
        simp only [List.length_append, List.length_singleton]
        omega

namespace Exact

section

variable (h : Exact total tracker chunks)
include h

theorem within_append {rest : List FileAckRange}
    (hrest : Within tracker.contiguousReceived total rest) : Within 0 total (tracker.contiguousRange ++ rest) := by
  unfold contiguousRange
  split_ifs with hpos
  · exact hrest.cons (Nat.le_refl _) hpos (Nat.zero_add _) h.contiguous_le
  · rwa [Nat.eq_zero_of_not_pos hpos] at hrest

theorem within_acknowledgedRanges (focus : Option Nat) (maximum : Nat) :
    Within 0 total (tracker.acknowledgedRanges focus maximum) := by
  unfold acknowledgedRanges
  split_ifs with hzero
  · exact within_nil _ _
  · cases focus with
    | none => exact h.within_append (h.length ▸ within_collectRanges _ _ _)
    | some focus =>
      simp only
      split_ifs with hskip
      · simpa using h.within_append (within_nil _ _)
      · simp only [Bool.or_eq_true, not_or, decide_eq_true_eq, Bool.not_eq_true', Bool.not_eq_false, not_lt] at hskip
        exact h.within_append (h.length ▸ within_focusRange hskip.1.1 hskip.1.2)

theorem holds_focus {focus maximum : Nat} (hfocus : focus ∈ chunks)
    (hmaximum : 2 ≤ maximum) : ∃ range ∈ tracker.acknowledgedRanges (some focus) maximum, range.Holds focus := by
  have hreceived := (h.flags focus).mpr hfocus
  have hone := tracker.length_contiguousRange_le
  have hzero : ¬maximum = 0 := by omega
  have hroom : ¬maximum ≤ tracker.contiguousRange.length := by omega
  rcases Nat.lt_or_ge focus tracker.contiguousReceived with hlt | hge
  · simpa [acknowledgedRanges, hzero, hlt] using holds_contiguousRange hlt
  · refine ⟨tracker.focusRange focus, ?_, tracker.holds_focusRange focus⟩
    simp [acknowledgedRanges, hzero, hreceived, Nat.not_lt.mpr hge, hroom]

theorem holds_iff {maximum : Nat} (hroom : (tracker.acknowledgedRanges none maximum).length < maximum) :
    i ∈ chunks ↔ ∃ range ∈ tracker.acknowledgedRanges none maximum, range.Holds i := by
  constructor
  · intro hi
    have hreceived := (h.flags i).mpr hi
    have hzero : ¬maximum = 0 := by omega
    simp only [acknowledgedRanges, if_neg hzero, List.length_append] at hroom ⊢
    rcases Nat.lt_or_ge i tracker.contiguousReceived with hlt | hge
    · obtain ⟨range, hrange, hholds⟩ := holds_contiguousRange hlt
      exact ⟨range, List.mem_append_left _ hrange, hholds⟩
    · have hspare := Nat.lt_sub_of_add_lt ((Nat.add_comm _ _).trans_lt hroom)
      obtain ⟨range, hrange, hholds⟩ := collectRanges_complete hspare hge hreceived
      exact ⟨range, List.mem_append_right _ hrange, hholds⟩
  · rintro ⟨range, hrange, hholds⟩
    exact (h.flags i).mp (acknowledgedRanges_sound h.wellFormed hrange hholds)

theorem serializes (htotal : total ≤ FILE_TRANSFER_MAX_CHUNKS) (focus : Option Nat)
    {transferId : UInt64} (hid : transferId ≠ 0) (headerReceived : Bool) :
    (serializeFileAck ⟨transferId, headerReceived,
      tracker.acknowledgedRanges focus FILE_ACK_MAX_RANGES⟩).isSome := by
  obtain ⟨hordered, hbounds⟩ := h.within_acknowledgedRanges focus FILE_ACK_MAX_RANGES
  have hfollow : FileAckRange.allFollow 0 (tracker.acknowledgedRanges focus FILE_ACK_MAX_RANGES) = true :=
    FileAckRange.allFollow_of_ordered hordered (fun range _ => Nat.zero_le _)
      fun range hrange => Nat.le_trans (hbounds range hrange).2 htotal
  have hcount := tracker.length_acknowledgedRanges_le focus FILE_ACK_MAX_RANGES
  simp [serializeFileAck, hid, hfollow, Nat.not_lt.mpr hcount]

end

end Exact

/-- What holds of a tracker after any operations: its counters are those of the chunks that are held, and an
acknowledgement consists of ordered ranges of such chunks that the codec takes, with the chunk in focus, and
with all of them when nothing was asked for in particular and there was room. -/
theorem run_exact {total : Nat} {tracker₀ tracker : FileChunkTracker} (hreset : reset total = some tracker₀)
    (ops : List Op) (hrun : tracker₀.run ops = tracker) :
    (∀ i, Bitmap.get tracker.received i = true ↔ i ∈ held total ops) ∧
    tracker.receivedCount = (held total ops).card ∧
    (∀ n, (∀ i < n, i ∈ held total ops) ↔ n ≤ tracker.contiguousReceived) ∧
    (∀ focus maximum,
      (∀ range ∈ tracker.acknowledgedRanges focus maximum,
        0 < range.count ∧ ∀ i, range.Holds i → i ∈ held total ops) ∧
      (tracker.acknowledgedRanges focus maximum).Pairwise
        (fun range later => range.first + range.count ≤ later.first) ∧
      (tracker.acknowledgedRanges focus maximum).length ≤ maximum) ∧
    (∀ focus ∈ held total ops, ∀ maximum ≥ 2,
      ∃ range ∈ tracker.acknowledgedRanges (some focus) maximum, range.Holds focus) ∧
    (∀ maximum, (tracker.acknowledgedRanges none maximum).length < maximum →
      ∀ i, i ∈ held total ops ↔ ∃ range ∈ tracker.acknowledgedRanges none maximum, range.Holds i) ∧
    (∀ focus transferId headerReceived, transferId ≠ 0 →
      (serializeFileAck ⟨transferId, headerReceived,
        tracker.acknowledgedRanges focus FILE_ACK_MAX_RANGES⟩).isSome) := by
  have h := (Exact.of_reset hreset).run ops
  rw [hrun] at h
  have htotal : total ≤ FILE_TRANSFER_MAX_CHUNKS := by
    unfold reset at hreset
    split_ifs at hreset with hinvalid
    omega
  refine ⟨h.flags, h.count, h.contiguous_iff, fun focus maximum => ?_,
    fun focus hfocus maximum hmaximum => h.holds_focus hfocus hmaximum, fun maximum hroom i => h.holds_iff hroom,
    fun focus transferId headerReceived hid => h.serializes htotal focus hid headerReceived⟩
  obtain ⟨⟨hcounts, horder⟩, -⟩ := h.within_acknowledgedRanges focus maximum
  refine ⟨fun range hrange => ⟨hcounts range hrange, fun i hi => ?_⟩, horder,
    tracker.length_acknowledgedRanges_le focus maximum⟩
  exact (h.flags i).mp (acknowledgedRanges_sound h.wellFormed hrange hi)

/-- Three of five chunks arrive and one of them is taken back. -/
theorem run_exact_five_chunks :
    let tracker := ((reset 5).getD {}).run [.record 0, .record 1, .record 3, .remove 1]
    tracker.acknowledgedRanges none 32 = [⟨0, 1⟩, ⟨3, 1⟩] ∧
      tracker.receivedCount = (held 5 [.record 0, .record 1, .record 3, .remove 1]).card ∧
      ∃ range ∈ tracker.acknowledgedRanges (some 3) 32, range.Holds 3 := by
  have h := @run_exact 5 ((reset 5).getD {}) _ (by decide) [.record 0, .record 1, .record 3, .remove 1] rfl
  obtain ⟨-, hcount, -, -, hfocus, -⟩ := h
  exact ⟨by decide, hcount, hfocus 3 (by decide) 32 (by decide)⟩

end FileChunkTracker

end Aegis
