import Aegis.Lib.Run
import Aegis.Session.Transport
import Mathlib.Data.List.MinMax

/-!
# What the replay window accepts

`check_replay` and `update_replay` of a session, as `decrypt_message` uses them: a number is checked, and marked
if the check succeeds and the frame opens. The 2048 bits and the last number stand for the whole list of numbers
accepted so far: a number passes if it is not in the list and less than 2048 below the largest one.
-/

namespace Aegis

/-- One frame under a session: its sequence number, and whether its box opens. -/
structure ReplayUse where
  seq : UInt64
  opens : Bool

namespace SessionState

/-- Check the number of a frame and, if it passes and the frame opens, mark and accept it. -/
def use (session : SessionState) (frame : ReplayUse) : SessionState × List UInt64 :=
  if session.checkReplay frame.seq && frame.opens then (session.updateReplay frame.seq, [frame.seq])
  else (session, [])

/-- The session after some frames, with the numbers it has accepted. -/
def uses (session : SessionState) (frames : List ReplayUse) : SessionState × List UInt64 :=
  frames.foldl (Run.record use) (session, [])

/-- `decrypt_message` uses the session under the id of the frame once, whatever becomes of the payload. -/
theorem findSessionByIdLocked_decryptMessage {H : Type} {P : Primitives H} {mgr : SessionManager H}
    {data : List UInt8} {header : PacketHeader} {session : SessionState} (hparse : parseFrame data = some header)
    (hfind : mgr.findSessionByIdLocked header.sessionId = some session) :
    (mgr.decryptMessage P data).1.findSessionByIdLocked header.sessionId =
      some (session.use ⟨header.sequenceNumber.toUInt64,
        (openFrame P session.recvKey header.payloadLength.toNat data).isSome⟩).1 := by
  unfold use
  cases hcheck : session.checkReplay header.sequenceNumber.toUInt64 with
  | false =>
    rw [SessionManager.decryptMessage_of_replay hparse hfind hcheck]
    exact hfind
  | true =>
    cases hopen : openFrame P session.recvKey header.payloadLength.toNat data with
    | none =>
      simp only [SessionManager.decryptMessage, hparse, hfind, hcheck, hopen, Bool.not_true, Bool.false_eq_true,
        if_false]
      rfl
    | some protectedPayload =>
      rw [SessionManager.decryptMessage_of_open hparse hfind hcheck hopen]
      refine SessionManager.findSessionByIdLocked_store hfind ?_
      rw [updateReplay_established]
      exact SessionManager.findSessionByIdLocked_established hfind

/-- The window stands for the numbers accepted. -/
def Recorded (s : SessionState × List UInt64) : Prop := s.1.window.Records {n | ∃ seq ∈ s.2, seq.toNat = n}

theorem Recorded.step {s : SessionState × List UInt64} (h : Recorded s) (frame : ReplayUse) :
    Recorded (Run.record use s frame) := by
  unfold Recorded at h ⊢
  simp only [Run.record, use]
  split_ifs
  · have hset : {n | ∃ seq ∈ s.2 ++ [frame.seq], seq.toNat = n}
        = insert frame.seq.toNat {n | ∃ seq ∈ s.2, seq.toNat = n} := by
      ext n
      simp only [List.mem_append, List.mem_singleton, Set.mem_ofPred_eq, Set.mem_insert_iff]
      constructor
      · rintro ⟨seq, hseq | rfl, rfl⟩
        · exact Or.inr ⟨seq, hseq, rfl⟩
        · exact Or.inl rfl
      · rintro (rfl | ⟨seq, hseq, rfl⟩)
        · exact ⟨frame.seq, Or.inr rfl, rfl⟩
        · exact ⟨seq, Or.inl hseq, rfl⟩
    rw [hset, window_updateReplay]
    exact h.update _
  · rwa [List.append_nil]

theorem Recorded.last_eq {s : SessionState × List UInt64} (h : Recorded s) :
    s.1.recvLast.toNat = (s.2.map UInt64.toNat).foldr max 0 := by
  apply Nat.le_antisymm
  · rcases h.last_mem with hzero | ⟨seq, hseq, heq⟩
    · have hlast : s.1.recvLast.toNat = 0 := hzero
      omega
    · have hlast : seq.toNat = s.1.recvLast.toNat := heq
      rw [← hlast]
      exact List.le_max_of_le (List.mem_map_of_mem hseq) (Nat.le_refl _)
  · refine List.max_le_of_forall_le _ _ fun n hn => ?_
    obtain ⟨seq, hseq, rfl⟩ := List.mem_map.mp hn
    exact h.le_last _ ⟨seq, hseq, rfl⟩

/-- The window equals its specification by the set of accepted numbers. -/
theorem replay_accepts_iff (session : SessionState) (hlast : session.recvLast = 0) (hwindow : session.recvWindow = 0)
    (frames : List ReplayUse) (seq : UInt64) (hseq : seq.toNat < 2 ^ 32) :
    let accepted := (session.uses frames).2
    let largest := (accepted.map UInt64.toNat).foldr max 0
    (session.uses frames).1.checkReplay seq = true ↔
      seq ∉ accepted ∧ (largest < 2048 ∨ largest - 2048 < seq.toNat) := by
  intro accepted largest
  have hfresh : Recorded (session, []) := by
    have hrecords : session.window = ReplayWindow.fresh := by
      simp [SessionState.window, ReplayWindow.fresh, hlast, hwindow]
    unfold Recorded
    rw [hrecords]
    simpa using ReplayWindow.fresh_records
  have h : Recorded (session.uses frames) := Run.invariant Recorded (fun _ frame h => h.step frame) hfresh frames
  have hlargest : (session.uses frames).1.window.last = largest := h.last_eq
  rw [checkReplay_eq _ (by omega), h.check_iff, hlargest]
  apply and_congr
  · simp only [Set.mem_ofPred_eq, not_exists, not_and]
    exact ⟨fun hnew hmem => hnew seq hmem rfl, fun hnew seq' hmem heq => hnew (UInt64.toNat_inj.mp heq ▸ hmem)⟩
  · omega

/-- A session after the numbers 5 and 3000, the first sent twice. -/
def sampleUses : List ReplayUse := [⟨5, true⟩, ⟨5, true⟩, ⟨7, false⟩, ⟨3000, true⟩]

theorem replay_accepts_sampleUses :
    let session : SessionState := {}
    (session.uses sampleUses).2 = [5, 3000] ∧ (session.uses sampleUses).1.checkReplay 952 = false ∧
      (session.uses sampleUses).1.checkReplay 953 = true := by
  intro session
  have haccepted : (session.uses sampleUses).2 = [5, 3000] := by decide +kernel
  have hiff := replay_accepts_iff session rfl rfl sampleUses
  simp only [haccepted] at hiff
  exact ⟨haccepted, Bool.eq_false_iff.mpr fun h => absurd ((hiff 952 (by decide)).mp h) (by decide),
    (hiff 953 (by decide)).mpr (by decide)⟩

end SessionState

end Aegis
