import Aegis.Lib.Run
import Aegis.File.SendWindow

/-!
# Whole runs of the send window

A run polls the window and feeds it acknowledgements in any order and at any times; the acknowledgements may
name chunks that were never sent, were acknowledged before or do not exist. `Ledger` is the invariant: it ties
the flags, the map of chunks in flight, the cursor and the attempt counters to the list of chunks sent so far.
Each move of the window (a chunk sent again, a new one launched, one acknowledged) keeps it.
-/

namespace Aegis

namespace FileSendWindow

inductive Op where
  | poll (now : Time)
  | acknowledge (ack : FileTransferAck) (now : Time)
  | cancel

def step (window : FileSendWindow) : Op → FileSendWindow × List FileSendAction
  | .poll now => ((window.poll now).1, [(window.poll now).2])
  | .acknowledge ack now => (window.acknowledge ack now, [])
  | .cancel => (window.cancel, [])

/-- The window after some operations, and what its polls asked to send. -/
def run (window : FileSendWindow) (ops : List Op) : FileSendWindow × List FileSendAction :=
  ops.foldl (Run.record step) (window, [])

def chunksSent (actions : List FileSendAction) : List Nat := actions.flatMap (·.chunks)

/-- How often some actions send the header. -/
def headersSent (actions : List FileSendAction) : Nat := actions.countP (·.sendHeader)

/-! ### Where a chunk is -/

def Acknowledged (window : FileSendWindow) (i : Nat) : Prop := Bitmap.get window.acknowledged i = true

def InFlight (window : FileSendWindow) (i : Nat) : Prop := ∃ chunk, window.inFlight.find? i = some chunk

def NotYetSent (window : FileSendWindow) (i : Nat) : Prop := window.nextChunk ≤ i ∧ ¬window.Acknowledged i

/-- The window keeps its books: `sent` are the chunks sent so far and `headers` counts the headers. -/
structure Ledger (config : FileSendWindowConfig) (total : Nat) (sent : List Nat) (headers : Nat)
    (window : FileSendWindow) : Prop where
  config_eq : window.config = config
  total_eq : window.totalChunks = total
  wellFormed : window.WellFormed
  next_le : window.nextChunk ≤ total
  /-- The chunks behind the cursor are acknowledged or in flight. -/
  behind : ∀ i < window.nextChunk, window.Acknowledged i ∨ window.InFlight i
  /-- Those in flight are behind the cursor, not acknowledged, and have attempts left. -/
  inFlight : ∀ i chunk, window.inFlight.find? i = some chunk →
    i < window.nextChunk ∧ ¬window.Acknowledged i ∧ chunk.retransmissions ≤ config.retryLimit ∧
      sent.count i ≤ 1 + chunk.retransmissions
  room : window.inFlight.size ≤ config.windowSize
  ahead : ∀ i, window.nextChunk ≤ i → sent.count i = 0
  attempts : ∀ i, sent.count i ≤ 1 + config.retryLimit
  header : headers ≤ if window.headerSent then 1 + window.headerRetransmissions else 0
  headerAttempts : window.headerRetransmissions ≤ config.retryLimit
  rto : config.minimumRto ≤ window.rto ∧ window.rto ≤ config.maximumRto

variable {config : FileSendWindowConfig} {total headers i : Nat} {sent chunks : List Nat}
  {window : FileSendWindow}

namespace Ledger

section

variable (h : Ledger config total sent headers window)
include h

theorem mono {sent' : List Nat} (hsent : sent'.Sublist sent) : Ledger config total sent' headers window := by
  have hcount : ∀ i, sent'.count i ≤ sent.count i := fun i => hsent.count_le i
  refine { h with inFlight := ?_, ahead := ?_, attempts := ?_ }
  · intro i chunk hchunk
    obtain ⟨hlt, hack, hleft, hsent⟩ := h.inFlight i chunk hchunk
    exact ⟨hlt, hack, hleft, (hcount i).trans hsent⟩
  · intro i hi
    exact Nat.le_zero.mp (h.ahead i hi ▸ hcount i)
  · intro i
    exact (hcount i).trans (h.attempts i)

theorem resend {chunk : InFlightChunk} (now : Time)
    (hchunk : window.inFlight.find? i = some chunk) (hleft : chunk.retransmissions < config.retryLimit) :
    Ledger config total (sent ++ [i]) headers
      { window with inFlight := window.inFlight.insert i ⟨now, chunk.retransmissions + 1⟩ } := by
  obtain ⟨hlt, hack, -, hsent⟩ := h.inFlight i chunk hchunk
  refine { h with behind := ?_, inFlight := ?_, room := ?_, ahead := ?_, attempts := ?_, wellFormed := ?_ }
  · exact ⟨h.wellFormed.length, h.wellFormed.count⟩
  · intro j hj
    refine (h.behind j hj).imp id fun ⟨other, hother⟩ => ?_
    by_cases hji : j = i
    · exact ⟨_, by rw [SortedMap.find?_insert, if_pos hji]⟩
    · exact ⟨other, by rwa [SortedMap.find?_insert, if_neg hji]⟩
  · intro j other hother
    rcases SortedMap.find?_insert_eq_some_iff.mp hother with ⟨rfl, rfl⟩ | ⟨hji, hother⟩
    · refine ⟨hlt, hack, hleft, ?_⟩
      rw [List.count_append, List.count_singleton_self]
      dsimp only
      omega
    · obtain ⟨hlt', hack', hleft', hsent'⟩ := h.inFlight j other hother
      refine ⟨hlt', hack', hleft', ?_⟩
      rwa [List.count_append, List.count_singleton, if_neg (by simpa using Ne.symm hji), Nat.add_zero]
  · exact (SortedMap.size_insert_of_contains _ (SortedMap.contains_of_find? hchunk)).trans h.room
  · intro j hj
    rw [List.count_append, List.count_singleton, h.ahead j hj, if_neg]
    have hj' : window.nextChunk ≤ j := hj
    simp only [beq_iff_eq]
    omega
  · intro j
    have hj := h.attempts j
    rw [List.count_append, List.count_singleton]
    split_ifs with hji
    · obtain rfl : i = j := by simpa using hji
      omega
    · exact hj

theorem launch (now : Time) (hroom : window.inFlight.size < config.windowSize) (hnext : window.nextChunk < total)
    (hack : ¬window.Acknowledged window.nextChunk) :
    Ledger config total (sent ++ [window.nextChunk]) headers
      { window with
        inFlight := window.inFlight.insert window.nextChunk ⟨now, 0⟩, nextChunk := window.nextChunk + 1 } := by
  refine { h with
    next_le := hnext, behind := ?_, inFlight := ?_, room := ?_, ahead := ?_, attempts := ?_, wellFormed := ?_ }
  · exact ⟨h.wellFormed.length, h.wellFormed.count⟩
  · intro j hj
    have hj' : j < window.nextChunk + 1 := hj
    by_cases hjn : j = window.nextChunk
    · exact Or.inr ⟨_, by rw [SortedMap.find?_insert, if_pos hjn]⟩
    · refine (h.behind j (by omega)).imp id fun ⟨other, hother⟩ => ⟨other, ?_⟩
      rwa [SortedMap.find?_insert, if_neg hjn]
  · intro j other hother
    rcases SortedMap.find?_insert_eq_some_iff.mp hother with ⟨rfl, rfl⟩ | ⟨hjn, hother⟩
    · refine ⟨Nat.lt_succ_self _, hack, Nat.zero_le _, ?_⟩
      rw [List.count_append, List.count_singleton_self, h.ahead _ (Nat.le_refl _)]
      omega
    · obtain ⟨hlt, hack', hleft, hsent⟩ := h.inFlight j other hother
      refine ⟨Nat.lt_succ_of_lt hlt, hack', hleft, ?_⟩
      rwa [List.count_append, List.count_singleton, if_neg (by simpa using Ne.symm hjn), Nat.add_zero]
  · exact (SortedMap.size_insert_le _ _ _).trans hroom
  · intro j hj
    have hj' : window.nextChunk + 1 ≤ j := hj
    rw [List.count_append, List.count_singleton, h.ahead j (by omega), if_neg]
    simp only [beq_iff_eq]
    omega
  · intro j
    have hj := h.attempts j
    rw [List.count_append, List.count_singleton]
    split_ifs with hjn
    · obtain rfl : window.nextChunk = j := by simpa using hjn
      rw [h.ahead _ (Nat.le_refl _)]
      omega
    · exact hj

theorem skip (hnext : window.nextChunk < total) (hack : window.Acknowledged window.nextChunk) :
    Ledger config total sent headers { window with nextChunk := window.nextChunk + 1 } := by
  refine { h with next_le := hnext, behind := ?_, inFlight := ?_, ahead := ?_, wellFormed := ?_ }
  · exact ⟨h.wellFormed.length, h.wellFormed.count⟩
  · intro j hj
    have hj' : j < window.nextChunk + 1 := hj
    by_cases hjn : j = window.nextChunk
    · exact Or.inl (hjn ▸ hack)
    · exact h.behind j (by omega)
  · intro j other hother
    obtain ⟨hlt, hrest⟩ := h.inFlight j other hother
    exact ⟨Nat.lt_succ_of_lt hlt, hrest⟩
  · intro j hj
    exact h.ahead j (Nat.le_of_succ_le hj)

theorem fail : Ledger config total sent headers { window with failed := true } :=
  { h with wellFormed := ⟨h.wellFormed.length, h.wellFormed.count⟩ }

/-! ### Polling -/

theorem pollHeader (now : Time) :
    (window.pollHeader now).2.chunks = [] ∧
      Ledger config total sent (headers + (window.pollHeader now).2.sendHeader.toNat)
        (window.pollHeader now).1 := by
  unfold FileSendWindow.pollHeader
  by_cases hwait : (window.headerSent && decide (now - window.headerSentAt < window.rto)) = true
  · rw [if_pos hwait]
    exact ⟨rfl, h⟩
  · rw [if_neg hwait]
    by_cases hgiveUp : (window.headerSent && decide (window.config.retryLimit ≤ window.headerRetransmissions)) = true
    · rw [if_pos hgiveUp]
      exact ⟨rfl, h.fail⟩
    · rw [if_neg hgiveUp]
      refine ⟨rfl, { h with header := ?_, headerAttempts := ?_, wellFormed := ?_ }⟩
      · exact ⟨h.wellFormed.length, h.wellFormed.count⟩
      · have hheader := h.header
        cases hsent : window.headerSent with
        | true =>
          simp only [hsent, if_true] at hheader
          simp only [Bool.toNat_true, if_true]
          omega
        | false =>
          simp only [hsent, Bool.false_eq_true, if_false] at hheader
          simp only [Bool.toNat_true, if_true]
          omega
      · have hattempts := h.headerAttempts
        cases hsent : window.headerSent with
        | true =>
          have hlt : window.headerRetransmissions < config.retryLimit := by simpa [hsent, h.config_eq] using hgiveUp
          exact hlt
        | false => simpa [hsent] using hattempts

end

/-- Either some chunk is out of attempts and nothing counts as sent, or chunks in flight are sent again. -/
theorem resendExpired {entries : List (Nat × InFlightChunk)}
    (h : Ledger config total (sent ++ chunks) headers window) (now : Time)
    (hkeys : (entries.map Prod.fst).Nodup) (hentries : ∀ e ∈ entries, window.inFlight.find? e.1 = some e.2)
    (hrunning : window.failed = false) :
    ((FileSendWindow.resendExpired now entries window chunks).1.failed = true ∧
      Ledger config total sent headers (FileSendWindow.resendExpired now entries window chunks).1) ∨
    ((FileSendWindow.resendExpired now entries window chunks).1.failed = false ∧
      (FileSendWindow.resendExpired now entries window chunks).1.nextChunk = window.nextChunk ∧
      (∃ resent, resent.Sublist (entries.map Prod.fst) ∧
        (FileSendWindow.resendExpired now entries window chunks).2 = chunks ++ resent) ∧
      Ledger config total (sent ++ (FileSendWindow.resendExpired now entries window chunks).2) headers
        (FileSendWindow.resendExpired now entries window chunks).1) := by
  induction entries generalizing window chunks with
  | nil => exact Or.inr ⟨hrunning, rfl, ⟨[], List.Sublist.slnil, by simp [FileSendWindow.resendExpired]⟩, h⟩
  | cons entry rest ih =>
    obtain ⟨index, chunk⟩ := entry
    rw [List.map_cons, List.nodup_cons] at hkeys
    have hrest : ∀ e ∈ rest, window.inFlight.find? e.1 = some e.2 := fun e he =>
      hentries e (List.mem_cons_of_mem _ he)
    unfold FileSendWindow.resendExpired
    split_ifs with hwait hgiveUp
    · refine (ih h hkeys.2 hrest hrunning).imp id ?_
      rintro ⟨hfailed, hnext, ⟨resent, hsub, heq⟩, hledger⟩
      exact ⟨hfailed, hnext, ⟨resent, hsub.cons index, heq⟩, hledger⟩
    · exact Or.inl ⟨rfl, (h.mono (List.sublist_append_left _ _)).fail⟩
    · -- the entries still to come are those of the map, since their keys are others
      have hleft : chunk.retransmissions < config.retryLimit := by
        rw [← h.config_eq]
        omega
      have hchunk : window.inFlight.find? index = some chunk := hentries _ List.mem_cons_self
      have hledger := h.resend now hchunk hleft
      rw [List.append_assoc] at hledger
      dsimp only
      refine (ih hledger hkeys.2 ?_ hrunning).imp id ?_
      · intro e he
        have hne : e.1 ≠ index := fun heq => hkeys.1 (List.mem_map.mpr ⟨e, he, heq⟩)
        rw [SortedMap.find?_insert, if_neg hne]
        exact hrest e he
      · rintro ⟨hfailed, hnext, ⟨resent, hsub, heq⟩, hledger⟩
        exact ⟨hfailed, hnext, ⟨index :: resent, hsub.cons_cons index, by simp [heq]⟩, hledger⟩

/-- New chunks are launched in order, from the cursor on, and only ones that are not acknowledged. -/
theorem fillWindow (h : Ledger config total (sent ++ chunks) headers window) (now : Time) (fuel : Nat) :
    ∃ launched, (FileSendWindow.fillWindow now fuel window chunks).2 = chunks ++ launched ∧
      launched.Pairwise (· < ·) ∧ (∀ i ∈ launched, window.nextChunk ≤ i ∧ ¬window.Acknowledged i) ∧
      Ledger config total (sent ++ (FileSendWindow.fillWindow now fuel window chunks).2) headers
        (FileSendWindow.fillWindow now fuel window chunks).1 := by
  induction fuel generalizing window chunks with
  | zero => exact ⟨[], by simp [FileSendWindow.fillWindow], List.Pairwise.nil, by simp, h⟩
  | succ fuel ih =>
    unfold FileSendWindow.fillWindow
    split_ifs with hgo hack
    · obtain ⟨launched, heq, hsorted, hlaunched, hledger⟩ := ih (h.skip (h.total_eq ▸ hgo.2) hack)
      refine ⟨launched, heq, hsorted, fun i hi => ?_, hledger⟩
      obtain ⟨hge, hunacked⟩ := hlaunched i hi
      exact ⟨Nat.le_of_succ_le hge, hunacked⟩
    · have hnext := h.launch now (h.config_eq ▸ hgo.1) (h.total_eq ▸ hgo.2) hack
      rw [List.append_assoc] at hnext
      obtain ⟨launched, heq, hsorted, hlaunched, hledger⟩ := ih hnext
      refine ⟨window.nextChunk :: launched, by simp [heq], ?_, ?_, hledger⟩
      · exact List.pairwise_cons.mpr ⟨fun i hi => (hlaunched i hi).1, hsorted⟩
      · intro i hi
        rcases List.mem_cons.mp hi with rfl | hi
        · exact ⟨Nat.le_refl _, hack⟩
        · obtain ⟨hge, hunacked⟩ := hlaunched i hi
          exact ⟨Nat.le_of_succ_le hge, hunacked⟩
    · exact ⟨[], by simp, List.Pairwise.nil, by simp, h⟩

section

variable (h : Ledger config total sent headers window)
include h

/-- A poll sends chunks that are not acknowledged, each once, and the books stay right. -/
theorem poll (now : Time) :
    (window.poll now).2.chunks.Nodup ∧ (∀ i ∈ (window.poll now).2.chunks, ¬window.Acknowledged i) ∧
      Ledger config total (sent ++ (window.poll now).2.chunks)
        (headers + (window.poll now).2.sendHeader.toNat) (window.poll now).1 := by
  unfold FileSendWindow.poll
  split_ifs with hdone hheader
  · exact ⟨List.nodup_nil, by simp, by simpa using h⟩
  · obtain ⟨hnone, hledger⟩ := h.pollHeader now
    rw [hnone, List.append_nil]
    exact ⟨List.nodup_nil, by simp, hledger⟩
  · have hrunning : window.failed = false := by
      simp only [Bool.or_eq_true, not_or, Bool.not_eq_true] at hdone
      exact hdone.1.1
    have hentries : ∀ e ∈ window.inFlight.entries, window.inFlight.find? e.1 = some e.2 := fun e he =>
      SortedMap.find?_eq_some_iff.mpr he
    have hstart : Ledger config total (sent ++ []) headers window := by simpa using h
    have hacks := sameAcks_resendExpired now window.inFlight.entries window []
    rcases hstart.resendExpired now window.inFlight.nodup_keys hentries hrunning with
      ⟨hfailed, hledger⟩ | ⟨hfailed, hnext, ⟨resent, hsub, heq⟩, hledger⟩
    · simp only [hfailed, if_true]
      exact ⟨List.nodup_nil, by simp, by simpa using hledger⟩
    · simp only [hfailed, Bool.false_eq_true, if_false]
      obtain ⟨launched, heq', hsorted, hlaunched, hledger'⟩ := hledger.fillWindow now _
      have hresent : ∀ i ∈ resent, i < window.nextChunk ∧ ¬window.Acknowledged i := by
        intro i hi
        obtain ⟨⟨i, chunk⟩, he, rfl⟩ := List.mem_map.mp (hsub.subset hi)
        obtain ⟨hlt, hunacked, -⟩ := h.inFlight i chunk (hentries _ he)
        exact ⟨hlt, hunacked⟩
      have hall := heq'.trans (by rw [heq, List.nil_append])
      have hlaunched' : ∀ i ∈ launched, window.nextChunk ≤ i ∧ ¬window.Acknowledged i := by
        simpa only [hnext, Acknowledged, hacks.acknowledged] using hlaunched
      refine ⟨?_, ?_, by simpa using hledger'⟩
      · -- what is sent again is behind the cursor, what is new is not
        rw [hall, List.nodup_append]
        refine ⟨hsub.nodup window.inFlight.nodup_keys, hsorted.imp Nat.ne_of_lt, ?_⟩
        rintro i hi j hj rfl
        have hlt := (hresent i hi).1
        have hge := (hlaunched' i hj).1
        omega
      · intro i hi
        rw [hall] at hi
        rcases List.mem_append.mp hi with hi | hi
        · exact (hresent i hi).2
        · exact (hlaunched' i hi).2

/-! ### Acknowledgements -/

theorem observeRtt (sample : Time) : Ledger config total sent headers (window.observeRtt sample) := by
  have hlimits : config.minimumRto ≤ config.maximumRto := le_trans h.rto.1 h.rto.2
  refine { h with rto := ?_, wellFormed := ⟨h.wellFormed.length, h.wellFormed.count⟩ }
  simp only [FileSendWindow.observeRtt, h.config_eq]
  exact ⟨le_min (le_max_right _ _) hlimits, min_le_right _ _⟩

theorem acknowledgeHeader (ack : FileTransferAck) (now : Time) :
    Ledger config total sent headers (window.acknowledgeHeader ack now) := by
  have hreceived : ∀ {window : FileSendWindow}, Ledger config total sent headers window →
      Ledger config total sent headers { window with headerReceived := true } := fun h =>
    { h with wellFormed := ⟨h.wellFormed.length, h.wellFormed.count⟩ }
  unfold FileSendWindow.acknowledgeHeader
  split_ifs
  · exact hreceived (h.observeRtt _)
  · exact hreceived h
  · exact h

theorem settle (hlt : i < total) (hack : ¬window.Acknowledged i) :
    Ledger config total sent headers
      { window with
        acknowledged := window.acknowledged.set i true
        acknowledgedCount := window.acknowledgedCount + 1
        inFlight := window.inFlight.erase i } := by
  have hlength : i < window.acknowledged.length := by
    rw [h.wellFormed.length, h.total_eq]
    exact hlt
  have hoff : Bitmap.get window.acknowledged i = false := by simpa [Acknowledged] using hack
  have hacked : ∀ j, Bitmap.get (window.acknowledged.set i true) j = true ↔ j = i ∨ window.Acknowledged j := by
    intro j
    rw [Bitmap.get_set]
    by_cases hji : i = j
    · subst hji
      simp [hlength]
    · simp [hji, Ne.symm hji, Acknowledged]
  refine { h with behind := ?_, inFlight := ?_, room := ?_, wellFormed := ?_ }
  · refine ⟨?_, ?_⟩
    · rw [List.length_set]
      exact h.wellFormed.length
    · rw [Bitmap.count_set_true hlength hoff, h.wellFormed.count]
  · intro j hj
    by_cases hji : j = i
    · exact Or.inl ((hacked j).mpr (Or.inl hji))
    · rcases h.behind j hj with hj | ⟨other, hother⟩
      · exact Or.inl ((hacked j).mpr (Or.inr hj))
      · exact Or.inr ⟨other, by rwa [SortedMap.find?_erase, if_neg hji]⟩
  · intro j other hother
    rw [SortedMap.find?_erase] at hother
    split_ifs at hother with hji
    obtain ⟨hlt', hack', hrest⟩ := h.inFlight j other hother
    exact ⟨hlt', fun hj => ((hacked j).mp hj).elim hji hack', hrest⟩
  · exact (SortedMap.size_erase_le _ _).trans h.room

theorem acknowledgeChunk (now : Time) (hlt : i < total) :
    Ledger config total sent headers (FileSendWindow.acknowledgeChunk now window i) := by
  unfold FileSendWindow.acknowledgeChunk
  split_ifs with hack
  · exact h
  · split
    · split_ifs
      · exact (h.observeRtt _).settle hlt hack
      · exact h.settle hlt hack
    · exact h.settle hlt hack

theorem acknowledge (ack : FileTransferAck) (now : Time) :
    Ledger config total sent headers (window.acknowledge ack now) := by
  unfold FileSendWindow.acknowledge
  split_ifs
  · exact h
  · refine Run.invariant_of_mem (Ledger config total sent headers) (fun settled i hi hsettled => ?_)
      (h.acknowledgeHeader ack now)
    obtain ⟨range, -, hi⟩ := List.mem_flatMap.mp hi
    exact hsettled.acknowledgeChunk now (h.total_eq ▸ (mem_rangeChunks.mp hi).2)

end

/-! ### Runs -/

theorem of_reset {start : Time} {window₀ : FileSendWindow} (h : window.reset total start = some window₀) :
    Ledger window.config total [] 0 window₀ := by
  obtain ⟨hwf, htotal, hflags⟩ := reset_wellFormed h
  unfold FileSendWindow.reset at h
  simp only at h
  split_ifs at h with hinvalid
  obtain rfl := (Option.some.inj h).symm
  simp only [not_or, not_lt] at hinvalid
  obtain ⟨-, -, -, -, -, hmin, hmax⟩ := hinvalid
  exact
    { config_eq := rfl
      total_eq := rfl
      wellFormed := hwf
      next_le := Nat.zero_le _
      behind := fun i hi => absurd hi (Nat.not_lt_zero i)
      inFlight := fun i chunk hchunk => by simp at hchunk
      room := Nat.zero_le _
      ahead := fun i hi => rfl
      attempts := fun i => Nat.zero_le _
      header := Nat.zero_le _
      headerAttempts := Nat.zero_le _
      rto := ⟨hmin, hmax⟩ }

section

variable (h : Ledger config total sent headers window)
include h

theorem step (op : Op) :
    (∀ action ∈ (window.step op).2, action.chunks.Nodup ∧ ∀ i ∈ action.chunks, ¬window.Acknowledged i) ∧
      Ledger config total (sent ++ chunksSent (window.step op).2) (headers + headersSent (window.step op).2)
        (window.step op).1 := by
  cases op with
  | poll now =>
    obtain ⟨hnodup, hunacked, hledger⟩ := h.poll now
    refine ⟨by simpa [FileSendWindow.step] using ⟨hnodup, hunacked⟩, ?_⟩
    have hheaders : headersSent [(window.poll now).2] = (window.poll now).2.sendHeader.toNat := by
      cases hsent : (window.poll now).2.sendHeader <;> simp [headersSent, hsent]
    simpa [FileSendWindow.step, chunksSent, hheaders] using hledger
  | acknowledge ack now =>
    refine ⟨by simp [FileSendWindow.step], ?_⟩
    simpa [FileSendWindow.step, chunksSent, headersSent] using h.acknowledge ack now
  | cancel =>
    refine ⟨by simp [FileSendWindow.step], ?_⟩
    simpa [FileSendWindow.step, chunksSent, headersSent, cancel] using h.fail

theorem run (ops : List Op) :
    (∀ action ∈ (window.run ops).2, action.chunks.Nodup) ∧
      Ledger config total (sent ++ chunksSent (window.run ops).2) (headers + headersSent (window.run ops).2)
        (window.run ops).1 := by
  refine Run.invariant
    (fun s : FileSendWindow × List FileSendAction =>
      (∀ action ∈ s.2, action.chunks.Nodup) ∧
        Ledger config total (sent ++ chunksSent s.2) (headers + headersSent s.2) s.1) ?_
    ⟨by simp, by simpa [chunksSent, headersSent] using h⟩ ops
  rintro ⟨window, actions⟩ op ⟨hnodup, hledger⟩
  obtain ⟨hactions, hnext⟩ := hledger.step op
  refine ⟨fun action haction => ?_, ?_⟩
  · rcases List.mem_append.mp haction with haction | haction
    · exact hnodup action haction
    · exact (hactions action haction).1
  · simpa [Run.record, chunksSent, headersSent, List.countP_append, Nat.add_assoc] using hnext

theorem acknowledged_step (hack : window.Acknowledged i) (op : Op) : (window.step op).1.Acknowledged i := by
  cases op with
  | poll now =>
    unfold Acknowledged
    rwa [FileSendWindow.step, (sameAcks_poll window now).acknowledged]
  | acknowledge ack now => exact (acknowledge_spec h.wellFormed ack now).2.2.1 i hack
  | cancel => exact hack

theorem notMem_chunksSent (hack : window.Acknowledged i) (ops : List Op) : i ∉ chunksSent (window.run ops).2 := by
  have hrun : (∃ sent headers, Ledger config total sent headers (window.run ops).1) ∧
      (window.run ops).1.Acknowledged i ∧ i ∉ chunksSent (window.run ops).2 := by
    refine Run.invariant
      (fun s : FileSendWindow × List FileSendAction =>
        (∃ sent headers, Ledger config total sent headers s.1) ∧ s.1.Acknowledged i ∧ i ∉ chunksSent s.2) ?_
      ⟨⟨sent, headers, h⟩, hack, by simp [chunksSent]⟩ ops
    rintro ⟨window, actions⟩ op ⟨⟨sent, headers, hledger⟩, hack, hnot⟩
    obtain ⟨hactions, hnext⟩ := hledger.step op
    refine ⟨⟨_, _, hnext⟩, hledger.acknowledged_step hack op, fun hi => ?_⟩
    simp only [Run.record, chunksSent, List.flatMap_append, List.mem_append] at hi
    rcases hi with hi | hi
    · exact hnot hi
    · obtain ⟨action, haction, hi⟩ := List.mem_flatMap.mp hi
      exact (hactions action haction).2 i hi hack
  exact hrun.2.2

theorem trichotomy (i : Nat) :
    (window.Acknowledged i ∧ ¬window.InFlight i ∧ ¬window.NotYetSent i) ∨
      (¬window.Acknowledged i ∧ window.InFlight i ∧ ¬window.NotYetSent i) ∨
      (¬window.Acknowledged i ∧ ¬window.InFlight i ∧ window.NotYetSent i) := by
  have hflight : window.InFlight i → i < window.nextChunk ∧ ¬window.Acknowledged i := by
    rintro ⟨chunk, hchunk⟩
    obtain ⟨hlt, hack, -⟩ := h.inFlight i chunk hchunk
    exact ⟨hlt, hack⟩
  by_cases hack : window.Acknowledged i
  · exact Or.inl ⟨hack, fun hi => (hflight hi).2 hack, fun hi => hi.2 hack⟩
  · rcases Nat.lt_or_ge i window.nextChunk with hlt | hge
    · have hi := (h.behind i hlt).resolve_left hack
      exact Or.inr (Or.inl ⟨hack, hi, fun hnot => Nat.not_lt.mpr hnot.1 hlt⟩)
    · exact Or.inr (Or.inr ⟨hack, fun hi => Nat.not_lt.mpr hge (hflight hi).1, hge, hack⟩)

end

end Ledger

/-- What holds of a window after any operations, whatever the acknowledgements say: every chunk is
acknowledged, in flight or not yet sent; the window is never overfull; nothing is sent twice in one poll, after
its acknowledgement or more often than the retries allow; completion means that all is acknowledged; an
acknowledgement touches flags of the file's chunks only; and the timeout stays within its limits. -/
theorem run_accounted {window window₀ after : FileSendWindow} {total : Nat} {start : Time}
    {actions : List FileSendAction} (hreset : window.reset total start = some window₀) (ops : List Op)
    (hrun : window₀.run ops = (after, actions)) :
    (∀ i < total,
      (after.Acknowledged i ∧ ¬after.InFlight i ∧ ¬after.NotYetSent i) ∨
        (¬after.Acknowledged i ∧ after.InFlight i ∧ ¬after.NotYetSent i) ∨
        (¬after.Acknowledged i ∧ ¬after.InFlight i ∧ after.NotYetSent i)) ∧
    (∀ i, after.NotYetSent i → i ∉ chunksSent actions) ∧
    after.inFlight.size ≤ window.config.windowSize ∧
    (∀ action ∈ actions, action.chunks.Nodup) ∧
    (∀ i, after.Acknowledged i → ∀ later, i ∉ chunksSent (after.run later).2) ∧
    (∀ i, (chunksSent actions).count i ≤ 1 + window.config.retryLimit) ∧
    headersSent actions ≤ 1 + window.config.retryLimit ∧
    (after.complete = true ↔ ∀ i < total, after.Acknowledged i) ∧
    (∀ ack : FileTransferAck, ∀ i ∈ ack.ranges.flatMap (rangeChunks after.totalChunks),
      i < after.acknowledged.length) ∧
    window.config.minimumRto ≤ after.rto ∧ after.rto ≤ window.config.maximumRto := by
  obtain ⟨hnodup, h⟩ := (Ledger.of_reset hreset).run ops
  rw [hrun] at hnodup h
  simp only [List.nil_append, Nat.zero_add] at h
  have hpos : total ≠ 0 := by
    rintro rfl
    simp [reset] at hreset
  refine ⟨fun i _ => h.trichotomy i, fun i hi => List.count_eq_zero.mp (h.ahead i hi.1), h.room, hnodup,
    fun i hi later => h.notMem_chunksSent hi later, h.attempts, ?_, ?_, ?_, h.rto⟩
  · have hheader := h.header
    have hattempts := h.headerAttempts
    split_ifs at hheader
    · omega
    · omega
  · rw [h.wellFormed.complete_iff, h.total_eq]
    exact and_iff_right hpos
  · intro ack i hi
    obtain ⟨range, -, hi⟩ := List.mem_flatMap.mp hi
    rw [h.wellFormed.length]
    exact (mem_rangeChunks.mp hi).2

/-- A file of two chunks, with a last acknowledgement that names more chunks than there are. -/
theorem run_accounted_two_chunks :
    let run := ((({} : FileSendWindow).reset 2 0).getD {}).run
      [.poll 0, .acknowledge ⟨1, true, []⟩ 50, .poll 60, .acknowledge ⟨1, true, [⟨0, 5⟩]⟩ 90]
    chunksSent run.2 = [0, 1] ∧ run.1.complete = true ∧ run.1.inFlight.size ≤ 32 ∧
      (run.1.complete = true ↔ ∀ i < 2, run.1.Acknowledged i) := by
  have h := @run_accounted {} ((({} : FileSendWindow).reset 2 0).getD {}) _ 2 0 _ (by decide)
    [.poll 0, .acknowledge ⟨1, true, []⟩ 50, .poll 60, .acknowledge ⟨1, true, [⟨0, 5⟩]⟩ 90] rfl
  obtain ⟨-, -, hroom, -, -, -, -, hcomplete, -⟩ := h
  exact ⟨by decide, by decide, hroom, hcomplete⟩

end FileSendWindow

end Aegis
