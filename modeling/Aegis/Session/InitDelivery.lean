import Aegis.Session.Tables

/-!
# One call of `handle_handshake_init`

What the three sections do when nothing comes between them, as one case distinction. `admittedInit` is the
INIT that passes every guard, judged on the state before the call. If there is none, the call changes
nothing but expired entries and the transcript cache (`handleHandshakeInit_of_refused`); if there is one,
the own pending initiation that lost the collision is gone and, given room and an answer, the session is
installed (`handleHandshakeInit_of_admittedInit`).
-/

namespace Aegis

namespace SessionManager

variable {H : Type}

/-- A guard refuses the INIT: it was seen, its session id is taken, or it loses to an own initiation. -/
def refusesInit (P : Primitives H) (cfg : SessionConfig) (mgr : SessionManager H) (clock : InitClock)
    (message : List UInt8) (outerSessionId : UInt32) (peerId : NodeId) : Bool :=
  match parseInit P cfg message outerSessionId with
  | none => true
  | some (frame, replayKey) =>
    (mgr.purgeInits clock.check).handshakeReplays.contains replayKey ||
    (mgr.purgeInits clock.check).sessionIdInUse frame.sessionId ||
    (decide (cfg.identity.nodeId < peerId) &&
      (((mgr.purgeInits clock.admission).pendingTo? peerId).isSome || mgr.activeLocally peerId))

/-- The INIT is read and authenticated for this node. -/
def verifiedInit (P : Primitives H) (cfg : SessionConfig) (message : List UInt8) (outerSessionId : UInt32)
    (entropy : Entropy) : Option (VerifiedInit H) :=
  (parseInit P cfg message outerSessionId).bind fun parsed => readInit P cfg parsed.1 parsed.2 entropy

/-- The INIT is authenticated and no guard refuses it. -/
def admittedInit (P : Primitives H) (cfg : SessionConfig) (mgr : SessionManager H) (clock : InitClock)
    (message : List UInt8) (outerSessionId : UInt32) (entropy : Entropy) : Option (VerifiedInit H) :=
  (verifiedInit P cfg message outerSessionId entropy).filter fun init =>
    !mgr.refusesInit P cfg clock message outerSessionId init.peerId

/-- The manager once the second section has admitted the INIT. -/
def afterAdmission (mgr : SessionManager H) (clock : InitClock) (init : VerifiedInit H) : SessionManager H :=
  ((mgr.purgeInits clock.admission).recordReplay clock.admission init.replayKey).dropPendingTo init.peerId

/-- The pending initiations that have not expired at `now`. -/
def unexpiredPending (mgr : SessionManager H) (now : Time) : SortedMap UInt32 (PendingInitiator H) :=
  (mgr.purgeIncompleteHandshakesLocked now).pendingInitiators

variable {P : Primitives H} {cfg : SessionConfig} {mgr : SessionManager H} {clock : InitClock}
  {message : List UInt8} {outerSessionId : UInt32} {entropy : Entropy} {init : VerifiedInit H}

theorem unexpiredPending_eq (mgr : SessionManager H) (now : Time) :
    mgr.unexpiredPending now = mgr.pendingInitiators.filter fun _ p => now < p.expires := rfl

theorem unexpiredPending_purgeInits {now now' : Time} (h : now ≤ now') :
    (mgr.purgeInits now).unexpiredPending now' = mgr.unexpiredPending now' := by
  have hpurge := congrArg pendingInitiators (purgeInits_purgeInits mgr now h)
  exact hpurge

theorem handleHandshakeInit_of_refused (h : mgr.admittedInit P cfg clock message outerSessionId entropy = none) :
    (mgr.handleHandshakeInit P cfg clock message outerSessionId entropy).2 = none ∧
      mgr.SameSessions (mgr.handleHandshakeInit P cfg clock message outerSessionId entropy).1 ∧
      (mgr.handleHandshakeInit P cfg clock message outerSessionId entropy).1.unexpiredPending clock.install
        = mgr.unexpiredPending clock.install := by
  have hle : clock.check ≤ clock.install := clock.check_le_admission.trans clock.admission_le_install
  rcases initCheck_cases P cfg mgr clock.check message outerSessionId entropy with
    hcheck | hcheck | ⟨frame, replayKey, hparse, hcached, huse, hcheck⟩
  · rw [handleHandshakeInit_of_check hcheck]
    exact ⟨rfl, ⟨rfl, rfl, rfl⟩, rfl⟩
  · rw [handleHandshakeInit_of_check hcheck]
    exact ⟨rfl, ⟨rfl, rfl, rfl⟩, unexpiredPending_purgeInits hle⟩
  · cases hread : readInit P cfg frame replayKey entropy with
    | none =>
      rw [hread] at hcheck
      rw [handleHandshakeInit_of_check hcheck]
      exact ⟨rfl, ⟨rfl, rfl, rfl⟩, unexpiredPending_purgeInits hle⟩
    | some init =>
      rw [hread] at hcheck
      have hpurge : (mgr.purgeInits clock.check).purgeInits clock.admission = mgr.purgeInits clock.admission :=
        purgeInits_purgeInits _ _ clock.check_le_admission
      have hpending : (mgr.purgeInits clock.admission).unexpiredPending clock.install
          = mgr.unexpiredPending clock.install := unexpiredPending_purgeInits clock.admission_le_install
      rcases initAdmit_cases cfg (mgr.purgeInits clock.check) clock.admission init with
        ⟨-, hadmitted⟩ | ⟨-, -, -, hadmitted⟩ | ⟨-, hfree, -⟩
      · rw [handleHandshakeInit_of_lost hcheck hadmitted, hpurge]
        exact ⟨rfl, ⟨rfl, rfl, rfl⟩, hpending⟩
      · rw [handleHandshakeInit_of_lost hcheck hadmitted, hpurge]
        exact ⟨rfl, ⟨rfl, rfl, rfl⟩, hpending⟩
      · -- the second section admits it only if no guard refuses it
        rw [hpurge] at hfree
        have hverified : verifiedInit P cfg message outerSessionId entropy = some init := by
          simp [verifiedInit, hparse, hread]
        have hrefused : mgr.refusesInit P cfg clock message outerSessionId init.peerId = true := by
          simpa [admittedInit, hverified] using h
        simp only [refusesInit, hparse, hcached, huse, Bool.false_or, Bool.and_eq_true, decide_eq_true_eq,
          Bool.or_eq_true] at hrefused
        obtain ⟨hpriority, hown⟩ := hrefused
        obtain ⟨hnone, hnot⟩ := hfree hpriority
        rcases hown with hown | hown
        · rw [hnone] at hown
          exact absurd hown (by simp)
        · exact absurd (hnot.symm.trans hown) (by simp)

theorem admittedInit_eq_some_iff :
    mgr.admittedInit P cfg clock message outerSessionId entropy = some init ↔
      verifiedInit P cfg message outerSessionId entropy = some init ∧
        mgr.refusesInit P cfg clock message outerSessionId init.peerId = false := by
  simp [admittedInit, Option.filter_eq_some_iff]

theorem verifiedInit_eq_some (h : verifiedInit P cfg message outerSessionId entropy = some init) :
    ∃ frame, parseInit P cfg message outerSessionId = some (frame, init.replayKey) ∧
      readInit P cfg frame init.replayKey entropy = some init ∧ init.sessionId = frame.sessionId := by
  obtain ⟨⟨frame, replayKey⟩, hparse, hread⟩ := Option.bind_eq_some_iff.mp h
  obtain ⟨hid, hkey⟩ := readInit_fields P cfg hread
  rw [hkey]
  exact ⟨frame, hparse, hread, hid⟩

theorem not_inUse_of_admittedInit (h : mgr.admittedInit P cfg clock message outerSessionId entropy = some init) :
    (mgr.purgeInits clock.check).sessionIdInUse init.sessionId = false := by
  obtain ⟨hverified, hrefused⟩ := admittedInit_eq_some_iff.mp h
  obtain ⟨frame, hparse, -, hid⟩ := verifiedInit_eq_some hverified
  simp only [refusesInit, hparse, Bool.or_eq_false_iff] at hrefused
  rw [hid]
  exact hrefused.1.2

theorem sameSessions_afterAdmission : mgr.SameSessions (mgr.afterAdmission clock init) := by
  have h := sameSessions_dropPendingTo ((mgr.purgeInits clock.admission).recordReplay clock.admission
    init.replayKey) init.peerId
  exact ⟨h.sessions, h.sessionToPeer, h.retired⟩

section

variable (h : mgr.admittedInit P cfg clock message outerSessionId entropy = some init)
include h

theorem not_inUse_afterAdmission :
    ((mgr.afterAdmission clock init).purgeIncompleteHandshakesLocked clock.install).sessionIdInUse
      init.sessionId = false := by
  have huse := not_inUse_of_admittedInit h
  have hsame : mgr.SameSessions (mgr.afterAdmission clock init) := sameSessions_afterAdmission
  have hpending : ((mgr.afterAdmission clock init).purgeIncompleteHandshakesLocked
      clock.install).pendingInitiators ⊆ (mgr.purgeInits clock.check).pendingInitiators := by
    refine SortedMap.subset_trans (SortedMap.filter_subset _ _) (SortedMap.subset_trans
      (dropPendingTo_subset _ _) ?_)
    show (mgr.purgeInits clock.admission).pendingInitiators ⊆ _
    rw [← purgeInits_purgeInits mgr clock.check clock.check_le_admission]
    exact SortedMap.filter_subset _ _
  simp only [sessionIdInUse, Bool.or_eq_false_iff] at huse ⊢
  refine ⟨⟨?_, ?_⟩, ?_⟩
  · show (mgr.afterAdmission clock init).sessionToPeer.contains init.sessionId = false
    rw [hsame.sessionToPeer]
    exact huse.1.1
  · show (mgr.afterAdmission clock init).retired.contains init.sessionId = false
    rw [hsame.retired]
    exact huse.1.2
  · rw [Bool.eq_false_iff]
    intro hc
    exact absurd (huse.2.symm.trans (SortedMap.contains_of_subset hpending hc)) (by simp)

theorem initCheck_of_admittedInit :
    mgr.initCheck P cfg clock.check message outerSessionId entropy = (mgr.purgeInits clock.check, some init) := by
  have huse := not_inUse_of_admittedInit h
  obtain ⟨hverified, hrefused⟩ := admittedInit_eq_some_iff.mp h
  obtain ⟨frame, hparse, hread, hid⟩ := verifiedInit_eq_some hverified
  simp only [refusesInit, hparse, Bool.or_eq_false_iff] at hrefused
  simp [initCheck, hparse, hrefused.1.1, ← hid, huse, hread]

theorem initAdmit_of_admittedInit :
    (mgr.purgeInits clock.check).initAdmit cfg clock.admission init =
      (mgr.afterAdmission clock init, mgr.hasRoomFor cfg init.peerId) := by
  obtain ⟨hverified, hrefused⟩ := admittedInit_eq_some_iff.mp h
  obtain ⟨frame, hparse, -, -⟩ := verifiedInit_eq_some hverified
  simp only [refusesInit, hparse, Bool.or_eq_false_iff, Bool.and_eq_false_iff, decide_eq_false_iff_not]
    at hrefused
  obtain ⟨⟨hcached, -⟩, hown⟩ := hrefused
  have hpurge : (mgr.purgeInits clock.check).purgeInits clock.admission = mgr.purgeInits clock.admission :=
    purgeInits_purgeInits _ _ clock.check_le_admission
  rcases initAdmit_cases cfg (mgr.purgeInits clock.check) clock.admission init with
    ⟨hseen, -⟩ | ⟨-, hpriority, hlost, -⟩ | ⟨-, -, hadmitted⟩
  · exact absurd (hcached.symm.trans (SortedMap.contains_of_contains_filter hseen)) (by simp)
  · rw [hpurge] at hlost
    rcases hown with hown | ⟨hnone, hnot⟩
    · exact absurd hpriority hown
    · rcases hlost with hlost | hlost
      · exact absurd (hnone.symm.trans hlost) (by simp)
      · exact absurd (hnot.symm.trans hlost) (by simp)
  · rw [hadmitted, hpurge]
    rfl

end

theorem hasRoomFor_afterAdmission (clock : InitClock) :
    ((mgr.afterAdmission clock init).purgeIncompleteHandshakesLocked clock.install).hasRoomFor cfg init.peerId =
      mgr.hasRoomFor cfg init.peerId := by
  have hsame : mgr.SameSessions (mgr.afterAdmission clock init) := sameSessions_afterAdmission
  show (mgr.afterAdmission clock init).hasRoomFor cfg init.peerId = _
  rw [hasRoomFor, hsame.sessions]
  rfl

/-- An admitted INIT: without room, or when the answer cannot be written, only the own pending initiation
that lost is gone; otherwise the session is installed. -/
theorem handleHandshakeInit_of_admittedInit
    (h : mgr.admittedInit P cfg clock message outerSessionId entropy = some init) :
    mgr.handleHandshakeInit P cfg clock message outerSessionId entropy =
      match writeResponse P init with
      | some (encoded, split) =>
        if mgr.hasRoomFor cfg init.peerId then
          (((mgr.afterAdmission clock init).purgeIncompleteHandshakesLocked clock.install).establish cfg
            clock.install init.peerId init.sessionId split false,
            some ⟨encoded, init.peerId, init.peerStatic⟩)
        else (mgr.afterAdmission clock init, none)
      | none => (mgr.afterAdmission clock init, none) := by
  have hcheck := initCheck_of_admittedInit h
  have hadmitted := initAdmit_of_admittedInit h
  have huse := not_inUse_afterAdmission h
  cases hr : mgr.hasRoomFor cfg init.peerId with
  | false =>
    rw [hr] at hadmitted
    rw [handleHandshakeInit_of_lost hcheck hadmitted]
    cases writeResponse P init with
    | none => rfl
    | some written => simp
  | true =>
    rw [hr] at hadmitted
    have hroom := (hasRoomFor_afterAdmission clock).trans hr
    rw [handleHandshakeInit_of_admitted hcheck hadmitted]
    cases hwrite : writeResponse P init with
    | none => simp only [initInstall, hwrite]
    | some written =>
      simp only [initInstall, hwrite, huse, hroom, Bool.false_eq_true, Bool.not_true, if_false, if_true]

end SessionManager

end Aegis
