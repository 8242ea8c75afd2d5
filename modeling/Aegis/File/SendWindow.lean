import Aegis.Lib.Bitmap
import Aegis.Lib.SortedMap
import Aegis.File.Messages

/-!
# The sender's window

`FileSendWindow`: the header, then a window of chunks in flight, each resent when its timeout has passed and
given up on after too many attempts. The clock ticks in milliseconds. `WellFormed` says that the count of
acknowledged chunks is that of the flags, so `complete` means that every chunk was acknowledged.
-/

namespace Aegis

structure FileSendWindowConfig where
  windowSize : Nat := 32
  retryLimit : Nat := 5
  initialRto : Time := 250
  minimumRto : Time := 100
  maximumRto : Time := 2000
deriving DecidableEq

structure InFlightChunk where
  sentAt : Time
  retransmissions : Nat
deriving DecidableEq

structure FileSendAction where
  sendHeader : Bool := false
  chunks : List Nat := []
deriving DecidableEq

structure FileSendWindow where
  config : FileSendWindowConfig := {}
  totalChunks : Nat := 0
  nextChunk : Nat := 0
  acknowledgedCount : Nat := 0
  headerSent : Bool := false
  headerReceived : Bool := false
  failed : Bool := false
  headerRetransmissions : Nat := 0
  headerSentAt : Time := 0
  rto : Time := config.initialRto
  inFlight : SortedMap Nat InFlightChunk := ∅
  acknowledged : List Bool := []
deriving DecidableEq

namespace FileSendWindow

def reset (window : FileSendWindow) (totalChunks : Nat) (now : Time) : Option FileSendWindow :=
  let config := window.config
  if totalChunks = 0 ∨ FILE_TRANSFER_MAX_CHUNKS < totalChunks ∨ config.windowSize = 0 ∨
      config.retryLimit = 0 ∨ config.minimumRto ≤ 0 ∨ config.initialRto < config.minimumRto ∨
      config.maximumRto < config.initialRto then none
  else
    some {
      config := config
      totalChunks := totalChunks
      headerSentAt := now
      rto := config.initialRto
      acknowledged := List.replicate totalChunks false }

def complete (window : FileSendWindow) : Bool :=
  window.totalChunks ≠ 0 && window.acknowledgedCount = window.totalChunks

def cancel (window : FileSendWindow) : FileSendWindow := { window with failed := true }

def observeRtt (window : FileSendWindow) (sample : Time) : FileSendWindow :=
  { window with rto := min (max (sample * 2) window.config.minimumRto) window.config.maximumRto }

/-! ### Polling -/

/-- The header is due: it was never sent, or its timeout has passed. -/
def pollHeader (window : FileSendWindow) (now : Time) : FileSendWindow × FileSendAction :=
  if window.headerSent && now - window.headerSentAt < window.rto then (window, {})
  else if window.headerSent && window.config.retryLimit ≤ window.headerRetransmissions then
    ({ window with failed := true }, {})
  else
    ({ window with
        headerSent := true
        headerSentAt := now
        headerRetransmissions := window.headerRetransmissions + if window.headerSent then 1 else 0 },
      { sendHeader := true })

/-- Resend the chunks in flight whose timeout has passed, in order, up to one that is out of attempts. -/
def resendExpired (now : Time) : List (Nat × InFlightChunk) → FileSendWindow → List Nat →
    FileSendWindow × List Nat
  | [], window, chunks => (window, chunks)
  | (index, chunk) :: rest, window, chunks =>
    if now - chunk.sentAt < window.rto then resendExpired now rest window chunks
    else if window.config.retryLimit ≤ chunk.retransmissions then ({ window with failed := true }, [])
    else
      let window :=
        { window with inFlight := window.inFlight.insert index ⟨now, chunk.retransmissions + 1⟩ }
      resendExpired now rest window (chunks ++ [index])

/-- Put new chunks in flight while the window has room; `fuel` is the number of chunks left. -/
def fillWindow (now : Time) : Nat → FileSendWindow → List Nat → FileSendWindow × List Nat
  | 0, window, chunks => (window, chunks)
  | fuel + 1, window, chunks =>
    if window.inFlight.size < window.config.windowSize ∧ window.nextChunk < window.totalChunks then
      if Bitmap.get window.acknowledged window.nextChunk then
        fillWindow now fuel { window with nextChunk := window.nextChunk + 1 } chunks
      else
        let index := window.nextChunk
        let window :=
          { window with inFlight := window.inFlight.insert index ⟨now, 0⟩, nextChunk := index + 1 }
        fillWindow now fuel window (chunks ++ [index])
    else (window, chunks)

def poll (window : FileSendWindow) (now : Time) : FileSendWindow × FileSendAction :=
  if window.failed || window.complete || window.totalChunks = 0 then (window, {})
  else if !window.headerReceived then window.pollHeader now
  else
    let (window, chunks) := resendExpired now window.inFlight.entries window []
    if window.failed then (window, {})
    else
      let (window, chunks) := fillWindow now (window.totalChunks - window.nextChunk) window chunks
      (window, { chunks := chunks })

/-! ### Acknowledgements -/

/-- One chunk of an acknowledged range. -/
def acknowledgeChunk (now : Time) (window : FileSendWindow) (index : Nat) : FileSendWindow :=
  if Bitmap.get window.acknowledged index then window
  else
    let window :=
      match window.inFlight.find? index with
      | some chunk => if chunk.retransmissions = 0 then window.observeRtt (now - chunk.sentAt) else window
      | none => window
    { window with
      acknowledged := window.acknowledged.set index true
      acknowledgedCount := window.acknowledgedCount + 1
      inFlight := window.inFlight.erase index }

/-- The chunks a range names, up to the last one of the file. -/
def rangeChunks (totalChunks : Nat) (range : FileAckRange) : List Nat :=
  List.range' range.first (min (range.first + range.count) totalChunks - range.first)

/-- The acknowledgement's word on the header. -/
def acknowledgeHeader (window : FileSendWindow) (ack : FileTransferAck) (now : Time) : FileSendWindow :=
  if ack.headerReceived && !window.headerReceived then
    let window :=
      if window.headerSent && window.headerRetransmissions = 0 then window.observeRtt (now - window.headerSentAt)
      else window
    { window with headerReceived := true }
  else window

def acknowledge (window : FileSendWindow) (ack : FileTransferAck) (now : Time) : FileSendWindow :=
  if window.failed || window.totalChunks = 0 then window
  else
    (ack.ranges.flatMap (rangeChunks window.totalChunks)).foldl (acknowledgeChunk now)
      (window.acknowledgeHeader ack now)

/-! ### The count agrees with the flags -/

/-- One flag per chunk, and as many counted as set. -/
structure WellFormed (window : FileSendWindow) : Prop where
  length : window.acknowledged.length = window.totalChunks
  count : window.acknowledgedCount = window.acknowledged.count true

/-- What polling leaves alone: the chunks and which of them are acknowledged. -/
structure SameAcks (window window' : FileSendWindow) : Prop where
  totalChunks : window'.totalChunks = window.totalChunks
  acknowledgedCount : window'.acknowledgedCount = window.acknowledgedCount
  acknowledged : window'.acknowledged = window.acknowledged

variable {window window' : FileSendWindow} {now : Time}

theorem SameAcks.refl (window : FileSendWindow) : window.SameAcks window := ⟨rfl, rfl, rfl⟩

theorem SameAcks.trans {window'' : FileSendWindow} (h : window.SameAcks window')
    (h' : window'.SameAcks window'') : window.SameAcks window'' :=
  ⟨h'.totalChunks.trans h.totalChunks, h'.acknowledgedCount.trans h.acknowledgedCount,
    h'.acknowledged.trans h.acknowledged⟩

theorem SameAcks.wellFormed (h : window.SameAcks window') (hwf : window.WellFormed) : window'.WellFormed := by
  refine ⟨?_, ?_⟩
  · rw [h.acknowledged, h.totalChunks]
    exact hwf.length
  · rw [h.acknowledged, h.acknowledgedCount]
    exact hwf.count

theorem SameAcks.complete (h : window.SameAcks window') : window'.complete = window.complete := by
  simp only [FileSendWindow.complete, h.totalChunks, h.acknowledgedCount]

theorem sameAcks_pollHeader : window.SameAcks (window.pollHeader now).1 := by
  unfold pollHeader
  split_ifs <;> exact ⟨rfl, rfl, rfl⟩

theorem sameAcks_resendExpired (now : Time) (entries : List (Nat × InFlightChunk)) (window : FileSendWindow)
    (chunks : List Nat) : window.SameAcks (resendExpired now entries window chunks).1 := by
  induction entries generalizing window chunks with
  | nil => exact .refl _
  | cons entry rest ih =>
    obtain ⟨index, chunk⟩ := entry
    unfold resendExpired
    split_ifs
    · exact ih window chunks
    · exact ⟨rfl, rfl, rfl⟩
    · obtain ⟨htotal, hcount, hflags⟩ := ih
        { window with inFlight := window.inFlight.insert index ⟨now, chunk.retransmissions + 1⟩ }
        (chunks ++ [index])
      exact ⟨htotal, hcount, hflags⟩

theorem sameAcks_fillWindow (now : Time) (fuel : Nat) (window : FileSendWindow) (chunks : List Nat) :
    window.SameAcks (fillWindow now fuel window chunks).1 := by
  induction fuel generalizing window chunks with
  | zero => exact .refl _
  | succ fuel ih =>
    unfold fillWindow
    split_ifs
    · obtain ⟨htotal, hcount, hflags⟩ := ih { window with nextChunk := window.nextChunk + 1 } chunks
      exact ⟨htotal, hcount, hflags⟩
    · obtain ⟨htotal, hcount, hflags⟩ := ih
        { window with
          inFlight := window.inFlight.insert window.nextChunk ⟨now, 0⟩, nextChunk := window.nextChunk + 1 }
        (chunks ++ [window.nextChunk])
      exact ⟨htotal, hcount, hflags⟩
    · exact .refl _

theorem sameAcks_poll (window : FileSendWindow) (now : Time) : window.SameAcks (window.poll now).1 := by
  unfold poll
  split_ifs with hdone hheader
  · exact .refl _
  · exact sameAcks_pollHeader
  · have hresend := sameAcks_resendExpired now window.inFlight.entries window []
    have hfill (resent : FileSendWindow) (chunks : List Nat) (h : window.SameAcks resent) :
        window.SameAcks (fillWindow now (resent.totalChunks - resent.nextChunk) resent chunks).1 :=
      h.trans (sameAcks_fillWindow _ _ _ _)
    simp only
    split_ifs
    · exact hresend
    · exact hfill _ _ hresend

/-! ### Acknowledged chunks -/

theorem sameAcks_acknowledgeHeader (ack : FileTransferAck) : window.SameAcks (window.acknowledgeHeader ack now) := by
  unfold acknowledgeHeader
  split_ifs <;> exact ⟨rfl, rfl, rfl⟩

theorem acknowledgeChunk_acks (window : FileSendWindow) (now : Time) (index : Nat) :
    (acknowledgeChunk now window index).totalChunks = window.totalChunks ∧
      ((Bitmap.get window.acknowledged index = true ∧ acknowledgeChunk now window index = window) ∨
        (Bitmap.get window.acknowledged index = false ∧
          (acknowledgeChunk now window index).acknowledged = window.acknowledged.set index true ∧
          (acknowledgeChunk now window index).acknowledgedCount = window.acknowledgedCount + 1)) := by
  unfold acknowledgeChunk
  cases hflag : Bitmap.get window.acknowledged index with
  | true => exact ⟨rfl, Or.inl ⟨rfl, rfl⟩⟩
  | false =>
    cases window.inFlight.find? index with
    | none => exact ⟨rfl, Or.inr ⟨rfl, rfl, rfl⟩⟩
    | some chunk =>
      by_cases hfirst : chunk.retransmissions = 0
      · simp [hfirst, observeRtt]
      · simp [hfirst]

theorem foldl_acknowledgeChunk (now : Time) {chunks : List Nat} (h : window.WellFormed)
    (hchunks : ∀ i ∈ chunks, i < window.totalChunks) :
    (chunks.foldl (acknowledgeChunk now) window).WellFormed ∧
      (chunks.foldl (acknowledgeChunk now) window).totalChunks = window.totalChunks ∧
      ∀ i, Bitmap.get (chunks.foldl (acknowledgeChunk now) window).acknowledged i = true ↔
        Bitmap.get window.acknowledged i = true ∨ i ∈ chunks := by
  induction chunks generalizing window with
  | nil => exact ⟨h, rfl, by simp⟩
  | cons index rest ih =>
    have hlt : index < window.totalChunks := hchunks index List.mem_cons_self
    obtain ⟨htotal, ⟨hflag, hsame⟩ | ⟨hflag, hflags, hcount⟩⟩ := acknowledgeChunk_acks window now index
    · rw [List.foldl_cons, hsame]
      obtain ⟨hwf, htotal, hiff⟩ := ih h fun i hi => hchunks i (List.mem_cons_of_mem _ hi)
      refine ⟨hwf, htotal, fun i => ?_⟩
      rw [hiff i, List.mem_cons]
      constructor
      · rintro (hi | hi)
        · exact Or.inl hi
        · exact Or.inr (Or.inr hi)
      · rintro (hi | rfl | hi)
        · exact Or.inl hi
        · exact Or.inl hflag
        · exact Or.inr hi
    · have hwf : (acknowledgeChunk now window index).WellFormed := by
        refine ⟨?_, ?_⟩
        · rw [hflags, List.length_set, htotal]
          exact h.length
        · rw [hflags, hcount, Bitmap.count_set_true (h.length ▸ hlt) hflag, h.count]
      rw [List.foldl_cons]
      obtain ⟨hwf', htotal', hiff⟩ := ih hwf fun i hi =>
        htotal ▸ hchunks i (List.mem_cons_of_mem _ hi)
      refine ⟨hwf', htotal'.trans htotal, fun i => ?_⟩
      rw [hiff i, hflags, Bitmap.get_set, List.mem_cons, h.length]
      by_cases hi : index = i
      · subst hi
        simp [hlt]
      · simp [hi, Ne.symm hi]

theorem mem_rangeChunks {totalChunks i : Nat} {range : FileAckRange} :
    i ∈ rangeChunks totalChunks range ↔ range.Holds i ∧ i < totalChunks := by
  simp only [rangeChunks, List.mem_range'_1, FileAckRange.Holds]
  omega

/-- The flags after an acknowledgement: those before and the chunks it names. -/
theorem acknowledge_spec (h : window.WellFormed) (ack : FileTransferAck) (now : Time) :
    (window.acknowledge ack now).WellFormed ∧
      (window.acknowledge ack now).totalChunks = window.totalChunks ∧
      (∀ i, Bitmap.get window.acknowledged i = true →
        Bitmap.get (window.acknowledge ack now).acknowledged i = true) ∧
      ∀ i, Bitmap.get (window.acknowledge ack now).acknowledged i = true →
        Bitmap.get window.acknowledged i = true ∨ ∃ range ∈ ack.ranges, range.Holds i := by
  unfold acknowledge
  split_ifs with hdone
  · exact ⟨h, rfl, fun i hi => hi, fun i hi => Or.inl hi⟩
  · have hheader : window.SameAcks (window.acknowledgeHeader ack now) := sameAcks_acknowledgeHeader ack
    have hchunks : ∀ i ∈ ack.ranges.flatMap (rangeChunks window.totalChunks),
        i < (window.acknowledgeHeader ack now).totalChunks := by
      intro i hi
      obtain ⟨range, -, hi⟩ := List.mem_flatMap.mp hi
      rw [hheader.totalChunks]
      exact (mem_rangeChunks.mp hi).2
    obtain ⟨hwf, htotal, hiff⟩ := foldl_acknowledgeChunk now (hheader.wellFormed h) hchunks
    simp only [hheader.acknowledged] at hiff
    refine ⟨hwf, htotal.trans hheader.totalChunks, fun i hi => (hiff i).mpr (Or.inl hi), fun i hi => ?_⟩
    rcases (hiff i).mp hi with hi | hi
    · exact Or.inl hi
    · obtain ⟨range, hrange, hi⟩ := List.mem_flatMap.mp hi
      exact Or.inr ⟨range, hrange, (mem_rangeChunks.mp hi).1⟩

theorem WellFormed.complete_iff (h : window.WellFormed) :
    window.complete = true ↔
      window.totalChunks ≠ 0 ∧ ∀ i < window.totalChunks, Bitmap.get window.acknowledged i = true := by
  simp only [complete, Bool.and_eq_true, decide_eq_true_eq, h.count, ← h.length]
  exact and_congr_right fun _ =>
    ⟨fun hcount i hi => Bitmap.get_of_count_eq_length hcount hi, Bitmap.count_eq_length_of_get⟩

theorem reset_wellFormed {totalChunks : Nat} (h : window.reset totalChunks now = some window') :
    window'.WellFormed ∧ window'.totalChunks = totalChunks ∧
      window'.acknowledged = List.replicate totalChunks false := by
  unfold reset at h
  simp only at h
  split_ifs at h
  obtain rfl := (Option.some.inj h).symm
  exact ⟨⟨by simp, by simp [List.count_replicate]⟩, rfl, rfl⟩

end FileSendWindow

end Aegis
