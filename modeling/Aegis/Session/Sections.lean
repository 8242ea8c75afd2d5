import Aegis.Lib.Run
import Aegis.Session.Tables

/-!
# Interleaved critical sections

Threads that share a session manager interleave at its critical sections. A `Section` is one of them; an
INIT being handled is a call that waits between two of its three sections, with anything in between. A run
is a list of sections, each with the clock reading it takes place at. Clock readings, messages, frames and
random bytes are arbitrary, so a statement about every run covers every schedule and every adversary.

The read-only operations (`get_session`, the counters and getters) change nothing and are left out.
-/

namespace Aegis

variable {H : Type}

/-- A `handle_handshake_init` call: its arguments and what it read from them. -/
structure InitCall (H : Type) where
  message : List UInt8
  outerSessionId : UInt32
  init : VerifiedInit H

/-- A call between its first and second, or its second and third section. After the second section its
transcript is cached until `expires`. -/
inductive OpenCall (H : Type) where
  | verified (call : InitCall H)
  | admitted (call : InitCall H) (expires : Time)

/-- A session manager and the INIT calls in progress on it. -/
structure Interleaving (H : Type) where
  mgr : SessionManager H := {}
  calls : List (OpenCall H) := []

/-- A critical section with its arguments; a section of a call in progress names the call. -/
inductive Section where
  | createHandshakeInit (sessionId : UInt32) (expectedPeerId : NodeId) (expectedPeerStatic : X25519Key)
      (entropy : Entropy)
  | initCheck (message : List UInt8) (outerSessionId : UInt32) (entropy : Entropy)
  | initAdmit (index : Nat)
  | initInstall (index : Nat)
  | handleHandshakeResp (message : List UInt8) (sessionId : UInt32)
  | encryptMessage (peerId : NodeId) (packetType : UInt8) (plaintext : List UInt8) (flags : UInt8)
      (entropy : Entropy)
  | decryptMessage (data : List UInt8)
  | removeSession (peerId : NodeId)
  | purgeRetired
  | purgeIncompleteHandshakes
  | purgeHandshakeReplays
  | setRetiredGrace (grace : Time)
  | setHandshakeTimeout (timeout : Time)
  | setHandshakeReplayTtl (ttl : Time)

/-- What a section reports: a session was established, an INIT from a peer was answered after its
transcript was cached until `expires`, or a frame was accepted. -/
inductive SessionEvent where
  | established (session : SessionState)
  | answered (message : List UInt8) (outerSessionId : UInt32) (peerId : NodeId) (expires : Time)
  | opened (frame : List UInt8) (message : DecryptedMessage)
deriving DecidableEq

namespace Interleaving

/-- The session just installed under `sessionId`. -/
def installed (mgr : SessionManager H) (sessionId : UInt32) : List SessionEvent :=
  (mgr.findSessionByIdLocked sessionId).toList.map .established

/-- One critical section at time `now`. -/
def step (P : Primitives H) (cfg : SessionConfig) (s : Interleaving H) (action : Time × Section) :
    Interleaving H × List SessionEvent :=
  let now := action.1
  match action.2 with
  | .createHandshakeInit sessionId peerId peerStatic entropy =>
    ({ s with mgr := (s.mgr.createHandshakeInit P cfg now sessionId peerId peerStatic entropy).1 }, [])
  | .initCheck message outerSessionId entropy =>
    match s.mgr.initCheck P cfg now message outerSessionId entropy with
    | (mgr, none) => ({ s with mgr := mgr }, [])
    | (mgr, some init) => (⟨mgr, s.calls ++ [.verified ⟨message, outerSessionId, init⟩]⟩, [])
  | .initAdmit index =>
    match s.calls[index]? with
    | some (.verified call) =>
      match s.mgr.initAdmit cfg now call.init with
      | (mgr, true) => (⟨mgr, s.calls.set index (.admitted call (now + s.mgr.handshakeReplayTtl))⟩, [])
      | (mgr, false) => (⟨mgr, s.calls.eraseIdx index⟩, [])
    | _ => (s, [])
  | .initInstall index =>
    match s.calls[index]? with
    | some (.admitted call expires) =>
      match s.mgr.initInstall P cfg now call.init with
      | (mgr, some response) =>
        (⟨mgr, s.calls.eraseIdx index⟩, installed mgr call.init.sessionId ++
          [.answered call.message call.outerSessionId response.peerId expires])
      | (mgr, none) => (⟨mgr, s.calls.eraseIdx index⟩, [])
    | _ => (s, [])
  | .handleHandshakeResp message sessionId =>
    match s.mgr.handleHandshakeResp P cfg now message sessionId with
    | (mgr, true) => ({ s with mgr := mgr }, installed mgr sessionId)
    | (mgr, false) => ({ s with mgr := mgr }, [])
  | .encryptMessage peerId packetType plaintext flags entropy =>
    ({ s with mgr := (s.mgr.encryptMessage P cfg peerId packetType plaintext flags entropy).1 }, [])
  | .decryptMessage data =>
    match s.mgr.decryptMessage P data with
    | (mgr, some message) => ({ s with mgr := mgr }, [.opened data message])
    | (mgr, none) => ({ s with mgr := mgr }, [])
  | .removeSession peerId => ({ s with mgr := s.mgr.removeSession peerId }, [])
  | .purgeRetired => ({ s with mgr := s.mgr.purgeRetiredLocked now }, [])
  | .purgeIncompleteHandshakes => ({ s with mgr := s.mgr.purgeIncompleteHandshakesLocked now }, [])
  | .purgeHandshakeReplays => ({ s with mgr := s.mgr.purgeHandshakeReplaysLocked now }, [])
  | .setRetiredGrace grace => ({ s with mgr := s.mgr.setRetiredGrace grace }, [])
  | .setHandshakeTimeout timeout => ({ s with mgr := s.mgr.setHandshakeTimeout now timeout }, [])
  | .setHandshakeReplayTtl ttl => ({ s with mgr := s.mgr.setHandshakeReplayTtl now ttl }, [])

/-- The state after a run, with everything reported on the way, oldest first. -/
def run (P : Primitives H) (cfg : SessionConfig) (actions : List (Time × Section)) :
    Interleaving H × List SessionEvent :=
  actions.foldl (Run.record (step P cfg)) ({}, [])

/-- The INIT of node 2 to node 1. -/
def sampleInit (sessionId : UInt32) (seed : UInt8) : List UInt8 :=
  ((writeInit clearPrimitives (.sample 2) sessionId (FixedBytes.copy 32 [1]) (FixedBytes.copy 32 [1])
    (some fun i => seed + UInt8.ofNat i)).map Prod.fst).getD []

def sampleEntropy : Entropy := some fun _ => 0

/-- Where the manager of a section's outcome comes from: some operation of the manager, on the manager
before. The events are those of a session established or a frame accepted by that operation. -/
inductive Outcome (P : Primitives H) (cfg : SessionConfig) (now : Time) (mgr : SessionManager H) :
    SessionManager H → List SessionEvent → Prop where
  | createHandshakeInit (sessionId peerId peerStatic entropy) :
    Outcome P cfg now mgr (mgr.createHandshakeInit P cfg now sessionId peerId peerStatic entropy).1 []
  | initCheck (message outerSessionId entropy) :
    Outcome P cfg now mgr (mgr.initCheck P cfg now message outerSessionId entropy).1 []
  | initAdmit (init) : Outcome P cfg now mgr (mgr.initAdmit cfg now init).1 []
  | initInstall (call : InitCall H) (expires) :
    Outcome P cfg now mgr (mgr.initInstall P cfg now call.init).1
      ((mgr.initInstall P cfg now call.init).2.elim [] fun response =>
        installed (mgr.initInstall P cfg now call.init).1 call.init.sessionId ++
          [.answered call.message call.outerSessionId response.peerId expires])
  | handleHandshakeResp (message sessionId) :
    Outcome P cfg now mgr (mgr.handleHandshakeResp P cfg now message sessionId).1
      (if (mgr.handleHandshakeResp P cfg now message sessionId).2 then
        installed (mgr.handleHandshakeResp P cfg now message sessionId).1 sessionId else [])
  | encryptMessage (peerId packetType plaintext flags entropy) :
    Outcome P cfg now mgr (mgr.encryptMessage P cfg peerId packetType plaintext flags entropy).1 []
  | decryptMessage (data) :
    Outcome P cfg now mgr (mgr.decryptMessage P data).1
      ((mgr.decryptMessage P data).2.toList.map (.opened data))
  | removeSession (peerId) : Outcome P cfg now mgr (mgr.removeSession peerId) []
  | shrink (mgr' : SessionManager H) (hsessions : mgr'.sessions = mgr.sessions)
      (hindex : mgr'.sessionToPeer = mgr.sessionToPeer) (hretired : mgr'.retired ⊆ mgr.retired)
      (hpending : mgr'.pendingInitiators ⊆ mgr.pendingInitiators)
      (hreplays : ∀ key expires, mgr.handshakeReplays.find? key = some expires → now < expires →
        mgr'.handshakeReplays.find? key = some expires) : Outcome P cfg now mgr mgr' []

theorem step_outcome (P : Primitives H) (cfg : SessionConfig) (s : Interleaving H) (action : Time × Section) :
    Outcome P cfg action.1 s.mgr (step P cfg s action).1.mgr (step P cfg s action).2 := by
  obtain ⟨now, action⟩ := action
  have hsame : Outcome P cfg now s.mgr s.mgr [] :=
    .shrink s.mgr rfl rfl (SortedMap.subset_refl _) (SortedMap.subset_refl _) fun _ _ h _ => h
  have hpurged : ∀ key expires, s.mgr.handshakeReplays.find? key = some expires → now < expires →
      (s.mgr.purgeHandshakeReplaysLocked now).handshakeReplays.find? key = some expires :=
    fun key expires hfind hnow => SortedMap.find?_filter_eq_some_iff.mpr ⟨hfind, by simpa using hnow⟩
  cases action with
  | createHandshakeInit sessionId peerId peerStatic entropy => exact .createHandshakeInit _ _ _ _
  | initCheck message outerSessionId entropy =>
    have h : Outcome P cfg now s.mgr _ _ := .initCheck message outerSessionId entropy
    simp only [step]
    split <;> simp_all
  | initAdmit index =>
    simp only [step]
    split
    · rename_i call _
      have h : Outcome P cfg now s.mgr _ _ := .initAdmit call.init
      split <;> simp_all
    · exact hsame
  | initInstall index =>
    simp only [step]
    split
    · rename_i call expires _
      have h : Outcome P cfg now s.mgr _ _ := .initInstall call expires
      split <;> simp_all
    · exact hsame
  | handleHandshakeResp message sessionId =>
    have h : Outcome P cfg now s.mgr _ _ := .handleHandshakeResp message sessionId
    simp only [step]
    split <;> simp_all
  | encryptMessage peerId packetType plaintext flags entropy => exact .encryptMessage _ _ _ _ _
  | decryptMessage data =>
    have h : Outcome P cfg now s.mgr _ _ := .decryptMessage data
    simp only [step]
    split <;> simp_all
  | removeSession peerId => exact .removeSession _
  | purgeRetired =>
    exact .shrink _ rfl rfl (SortedMap.filter_subset _ _) (SortedMap.subset_refl _) fun _ _ h _ => h
  | purgeIncompleteHandshakes =>
    exact .shrink _ rfl rfl (SortedMap.subset_refl _) (SortedMap.filter_subset _ _) fun _ _ h _ => h
  | purgeHandshakeReplays =>
    exact .shrink _ rfl rfl (SortedMap.subset_refl _) (SortedMap.subset_refl _) hpurged
  | setRetiredGrace grace =>
    exact .shrink _ rfl rfl (SortedMap.subset_refl _) (SortedMap.subset_refl _) fun _ _ h _ => h
  | setHandshakeTimeout timeout =>
    exact .shrink _ rfl rfl (SortedMap.subset_refl _) (SortedMap.filter_subset _ _) fun _ _ h _ => h
  | setHandshakeReplayTtl ttl =>
    exact .shrink _ rfl rfl (SortedMap.subset_refl _) (SortedMap.subset_refl _) hpurged

/-! ### The tables of every reachable state -/

theorem Outcome.tableInvariant {P : Primitives H} {cfg : SessionConfig} {now : Time}
    {mgr mgr' : SessionManager H} {events : List SessionEvent} (h : Outcome P cfg now mgr mgr' events)
    (hinv : mgr.TableInvariant cfg) : mgr'.TableInvariant cfg := by
  cases h with
  | createHandshakeInit sessionId peerId peerStatic entropy => exact hinv.createHandshakeInit ..
  | initCheck message outerSessionId entropy => exact hinv.initCheck ..
  | initAdmit init => exact hinv.initAdmit ..
  | initInstall call expires => exact hinv.initInstall ..
  | handleHandshakeResp message sessionId => exact hinv.handleHandshakeResp ..
  | encryptMessage peerId packetType plaintext flags entropy => exact hinv.encryptMessage ..
  | decryptMessage data => exact hinv.decryptMessage ..
  | removeSession peerId => exact hinv.removeSession ..
  | shrink mgr' hsessions hindex hretired hpending _ => exact hinv.shrink hsessions hindex hretired hpending

theorem run_tableInvariant (P : Primitives H) (cfg : SessionConfig) (actions : List (Time × Section)) :
    (run P cfg actions).1.mgr.TableInvariant cfg := by
  refine Run.invariant (fun s : Interleaving H × List SessionEvent => s.1.mgr.TableInvariant cfg)
    (fun s action h => ?_) SessionManager.tableInvariant_empty actions
  exact (step_outcome P cfg s.1 action).tableInvariant h

/-- In every reachable state the id index and the session table are inverse, no id is in two of the three
tables, and every table is within its limit. -/
theorem tables_consistent (P : Primitives H) (cfg : SessionConfig) (actions : List (Time × Section)) :
    let mgr := (run P cfg actions).1.mgr
    (∀ sid p, mgr.sessionToPeer.find? sid = some p ↔
      ∃ s, mgr.sessions.find? p = some s ∧ s.id = sid ∧ s.established = true) ∧
    (∀ sid, ¬(mgr.sessionToPeer.contains sid = true ∧ mgr.retired.contains sid = true) ∧
      ¬(mgr.sessionToPeer.contains sid = true ∧ mgr.pendingInitiators.contains sid = true) ∧
      ¬(mgr.retired.contains sid = true ∧ mgr.pendingInitiators.contains sid = true)) ∧
    mgr.sessions.size ≤ cfg.capacity.active ∧ mgr.retired.size ≤ cfg.capacity.retired ∧
    mgr.pendingInitiators.size ≤ cfg.capacity.pending := by
  intro mgr
  have hinv : mgr.TableInvariant cfg := run_tableInvariant P cfg actions
  refine ⟨fun sid p => ⟨fun hindex => ?_, ?_⟩, fun sid => ⟨?_, ?_, ?_⟩, hinv.activeLimit, hinv.retiredLimit,
    hinv.pendingLimit⟩
  · obtain ⟨s, hs, hid⟩ := hinv.indexed sid p hindex
    exact ⟨s, hs, hid, (hinv.active p s hs).1⟩
  · rintro ⟨s, hs, rfl, -⟩
    exact (hinv.active p s hs).2.2
  · rintro ⟨hactive, hretired⟩
    simp [hinv.active_retired sid hactive] at hretired
  · rintro ⟨hactive, hpending⟩
    simp [hinv.active_pending sid hactive] at hpending
  · rintro ⟨hretired, hpending⟩
    simp [hinv.retired_pending sid hretired] at hpending

end Interleaving

end Aegis
