import Aegis.Peer.Manager
import Aegis.Session.InitDelivery
import Aegis.Session.Sections
import Aegis.Transport.HandshakeCookie

/-!
# INIT frames

`Tunnel::handle_handshake_init_frame`: a rate limit and a retry cookie stand before the session manager; an
INIT it answers is entered in the peer table and its RESP is queued. The rate limiter, the cookie manager,
the send queue, the clock and the random source answer as they will (`InitFrameAnswers`).

The session is installed before the peer table and the queue are asked, and a refusal is undone by
`remove_session`, which takes everything held for the peer with it. `initFrame_atomic_iff` says for which
frames a refused INIT leaves the tables alone.
-/

namespace Aegis

def TYPE_HANDSHAKE_RESP : UInt8 := 0x01
def TYPE_HANDSHAKE_COOKIE : UInt8 := 0x0C

structure PendingHandshake where
  peerId : NodeId
  sessionId : UInt32
  done : Bool
  endpoint : Endpoint := {}
  cookie : Option HandshakeCookie := none
  cookieUpdated : Bool := false
deriving DecidableEq

/-- What a tunnel holds of its peers. -/
structure Tunnel (H : Type) where
  sessionManager : SessionManager H := {}
  peers : PeerManager := {}
  pendingHandshakes : SortedMap NodeId PendingHandshake := ∅

/-- What the tunnel's collaborators answer while one INIT frame is handled. -/
structure InitFrameAnswers where
  /-- `handshake_rate_limiter_.allow` -/
  allowed : Bool := true
  /-- `handshake_cookie_manager_.verify`, for this sender and frame -/
  verified : HandshakeCookie → Bool := fun _ => true
  /-- `handshake_cookie_manager_.issue` -/
  issued : Option HandshakeCookie := none
  /-- `transport_.send` accepts the datagram -/
  sent : List UInt8 → Bool := fun _ => true
  clock : InitClock
  entropy : Entropy
  /-- The clock of the peer table, in `upsert` and in `mark_seen` -/
  upsertedAt : Time := clock.install
  seenAt : Time := clock.install

inductive InitFrameOutcome where
  | dropped
  | challenged (wire : List UInt8)
  | answered (wire : List UInt8)
deriving DecidableEq

def INIT_FRAME_BARE_SIZE : Nat := PACKET_HEADER_SIZE + HANDSHAKE_V2_INIT_FRAME_SIZE
def INIT_FRAME_COOKIE_SIZE : Nat := INIT_FRAME_BARE_SIZE + HANDSHAKE_COOKIE_SIZE

/-- The span of the Noise frame in the datagram. -/
def initFrameOf (data : List UInt8) : List UInt8 :=
  (data.drop PACKET_HEADER_SIZE).take HANDSHAKE_V2_INIT_FRAME_SIZE

/-- The datagram carries a cookie that the cookie manager accepts. -/
def cookieValid (answers : InitFrameAnswers) (data : List UInt8) : Bool :=
  data.length = INIT_FRAME_COOKIE_SIZE &&
    answers.verified (FixedBytes.copy HANDSHAKE_COOKIE_SIZE (data.drop INIT_FRAME_BARE_SIZE))

/-- A handshake packet: its header, then the message. -/
def handshakeWire (packetType : UInt8) (sessionId : UInt32) (message : List UInt8) : List UInt8 :=
  serializePacketHeader
    ⟨PACKET_VERSION, packetType, 0, 0, sessionId, 0, UInt32.ofNat message.length⟩ ++ message

namespace Tunnel

variable {H : Type}

/-- The handler after the session manager has answered: peer table, send queue, bookkeeping. -/
def answerInit (node : Tunnel H) (answers : InitFrameAnswers) (response : HandshakeResponse)
    (sessionId : UInt32) (sender : Endpoint) : Tunnel H × InitFrameOutcome :=
  let undone := node.sessionManager.removeSession response.peerId
  match node.peers.upsert answers.upsertedAt response.peerId response.peerStaticPublicKey (some sender)
      false with
  | (peers, .identityConflict) => ({ node with sessionManager := undone, peers := peers }, .dropped)
  | (peers, .capacityRejected) => ({ node with sessionManager := undone, peers := peers }, .dropped)
  | (peers, _) =>
    let wire := handshakeWire TYPE_HANDSHAKE_RESP sessionId response.message
    if !answers.sent wire then ({ node with sessionManager := undone, peers := peers }, .dropped)
    else
      ({ node with
          peers := peers.markSeen answers.seenAt response.peerId (some sender)
          pendingHandshakes := node.pendingHandshakes.insert response.peerId
            { peerId := response.peerId, sessionId := sessionId, done := true } },
        .answered wire)

def handleHandshakeInitFrame (P : Primitives H) (cfg : SessionConfig) (node : Tunnel H)
    (answers : InitFrameAnswers) (data : List UInt8) (header : PacketHeader) (sender : Endpoint) :
    Tunnel H × InitFrameOutcome :=
  if !answers.allowed then (node, .dropped)
  else if (data.length ≠ INIT_FRAME_BARE_SIZE ∧ data.length ≠ INIT_FRAME_COOKIE_SIZE) ∨
      header.payloadLength.toNat ≠ data.length - PACKET_HEADER_SIZE then
    (node, .dropped)
  else if !cookieValid answers data then
    match answers.issued with
    | none => (node, .dropped)
    | some cookie => (node, .challenged (handshakeWire TYPE_HANDSHAKE_COOKIE header.sessionId cookie.1))
  else
    match node.sessionManager.handleHandshakeInit P cfg answers.clock (initFrameOf data) header.sessionId
        answers.entropy with
    | (mgr, none) => ({ node with sessionManager := mgr }, .dropped)
    | (mgr, some response) =>
      ({ node with sessionManager := mgr } : Tunnel H).answerInit answers response header.sessionId sender

end Tunnel

namespace SessionManager

variable {H : Type}

/-- The retired sessions that have not expired at `now`. -/
def unexpiredRetired (mgr : SessionManager H) (now : Time) : SortedMap UInt32 RetiredSession :=
  (mgr.purgeRetiredLocked now).retired

/-- The established sessions are the same, and so are the retired sessions and the pending initiations
that have not expired at `now`. -/
structure Unchanged (now : Time) (mgr mgr' : SessionManager H) : Prop where
  sessions : mgr'.sessions = mgr.sessions
  sessionToPeer : mgr'.sessionToPeer = mgr.sessionToPeer
  retired : mgr'.unexpiredRetired now = mgr.unexpiredRetired now
  pending : mgr'.unexpiredPending now = mgr.unexpiredPending now

/-- Something that `remove_session` takes: an active session, a retired session or a pending initiation. -/
def holdsStateFor (mgr : SessionManager H) (now : Time) (peerId : NodeId) : Bool :=
  mgr.sessions.contains peerId ||
    ((mgr.unexpiredRetired now).findIf? fun _ r => r.session.peerId = peerId).isSome ||
    ((mgr.unexpiredPending now).findIf? fun _ p => p.expectedPeerId = peerId).isSome

/-- The pending initiation to the peer that an admitted INIT ends outlives the call. -/
def losesPending (mgr : SessionManager H) (clock : InitClock) (peerId : NodeId) : Bool :=
  ((mgr.purgeInits clock.admission).pendingTo? peerId).any fun p => clock.install < p.2.expires

variable {mgr : SessionManager H} {peerId : NodeId} {now : Time}

theorem SameSessions.unexpiredRetired {mgr' : SessionManager H} (h : mgr.SameSessions mgr') :
    mgr'.unexpiredRetired now = mgr.unexpiredRetired now := by
  simp only [SessionManager.unexpiredRetired, purgeRetiredLocked, h.retired]

theorem find?_sessions_removeSession : (mgr.removeSession peerId).sessions.find? peerId = none := by
  unfold removeSession
  cases hfind : mgr.sessions.find? peerId with
  | none => exact hfind
  | some session => simp

theorem unexpiredPending_removeSession :
    (mgr.removeSession peerId).unexpiredPending now
      = (mgr.unexpiredPending now).filter fun _ p => p.expectedPeerId ≠ peerId := by
  have hpending : (mgr.removeSession peerId).pendingInitiators
      = mgr.pendingInitiators.filter fun _ p => p.expectedPeerId ≠ peerId := by
    unfold removeSession
    cases mgr.sessions.find? peerId <;> rfl
  rw [unexpiredPending_eq, hpending, unexpiredPending_eq]
  exact SortedMap.filter_comm _ _ _

theorem removeSession_establish (cfg : SessionConfig) (now : Time) (split : NoiseIkSplitResult)
    (local_ : Bool) {sessionId : UInt32} (hactive : mgr.sessions.find? peerId = none)
    (huse : mgr.sessionIdInUse sessionId = false) :
    ((mgr.establish cfg now peerId sessionId split local_).removeSession peerId).sessions = mgr.sessions ∧
    ((mgr.establish cfg now peerId sessionId split local_).removeSession peerId).sessionToPeer
      = mgr.sessionToPeer ∧
    ((mgr.establish cfg now peerId sessionId split local_).removeSession peerId).retired
      = mgr.retired.filter fun _ r => r.session.peerId ≠ peerId := by
  simp only [sessionIdInUse, Bool.or_eq_false_iff, SortedMap.contains_eq_false_iff] at huse
  obtain ⟨⟨hindex, hretired⟩, -⟩ := huse
  have hnone : mgr.findSessionLocked peerId = none := by simp [findSessionLocked, hactive]
  have hself : (mgr.sessions.insert peerId (.fresh peerId sessionId split local_ now)).find? peerId
      = some (.fresh peerId sessionId split local_ now) := by simp
  rw [establish_eq, supersede_of_none hnone]
  simp only [removeSession, hself]
  refine ⟨SortedMap.erase_insert_self hactive, SortedMap.erase_insert_self hindex, ?_⟩
  show (mgr.retired.erase sessionId).filter _ = _
  rw [SortedMap.erase_eq_self hretired]

variable {clock : InitClock} {init : VerifiedInit H}

theorem unexpiredPending_afterAdmission :
    (mgr.afterAdmission clock init).unexpiredPending clock.install
      = ((mgr.purgeInits clock.admission).dropPendingTo init.peerId).unexpiredPending clock.install := by
  have hpending : ((mgr.purgeInits clock.admission).recordReplay clock.admission init.replayKey).pendingTo?
      init.peerId = (mgr.purgeInits clock.admission).pendingTo? init.peerId := rfl
  unfold afterAdmission dropPendingTo
  rw [hpending]
  cases (mgr.purgeInits clock.admission).pendingTo? init.peerId <;> rfl

theorem unchanged_afterAdmission_iff :
    Unchanged clock.install mgr (mgr.afterAdmission clock init) ↔
      mgr.losesPending clock init.peerId = false := by
  have hsame : mgr.SameSessions (mgr.afterAdmission clock init) := sameSessions_afterAdmission
  have hpurge : (mgr.purgeInits clock.admission).unexpiredPending clock.install
      = mgr.unexpiredPending clock.install := unexpiredPending_purgeInits clock.admission_le_install
  have hpending : (mgr.afterAdmission clock init).unexpiredPending clock.install
      = ((mgr.purgeInits clock.admission).dropPendingTo init.peerId).unexpiredPending clock.install :=
    unexpiredPending_afterAdmission
  have hiff : Unchanged clock.install mgr (mgr.afterAdmission clock init) ↔
      ((mgr.purgeInits clock.admission).dropPendingTo init.peerId).unexpiredPending clock.install
        = mgr.unexpiredPending clock.install := by
    exact ⟨fun h => hpending ▸ h.pending,
      fun h => ⟨hsame.sessions, hsame.sessionToPeer, hsame.unexpiredRetired, hpending.trans h⟩⟩
  rw [hiff, ← hpurge, losesPending, dropPendingTo]
  cases hfind : (mgr.purgeInits clock.admission).pendingTo? init.peerId with
  | none => simp
  | some found =>
    obtain ⟨sessionId, pending⟩ := found
    have hentry := (SortedMap.findIf?_eq_some hfind).1
    simp only [Option.any_some, decide_eq_false_iff_not]
    have herased : ((mgr.purgeInits clock.admission).erasePending sessionId).unexpiredPending clock.install
        = ((mgr.purgeInits clock.admission).unexpiredPending clock.install).erase sessionId := by
      simp only [unexpiredPending_eq, erasePending, SortedMap.erase]
      exact SortedMap.filter_comm _ _ _
    rw [herased, SortedMap.erase, SortedMap.filter_eq_self_iff]
    constructor
    · intro h hunexpired
      have := h sessionId pending (SortedMap.find?_filter_eq_some_iff.mpr ⟨hentry, by simpa using hunexpired⟩)
      simp at this
    · intro hexpired k p hp
      obtain ⟨hp, hunexpired⟩ := SortedMap.find?_filter_eq_some_iff.mp hp
      have hne : k ≠ sessionId := by
        rintro rfl
        rw [hentry] at hp
        obtain rfl := Option.some.inj hp
        exact hexpired (by simpa using hunexpired)
      simpa using hne

theorem otherPending_afterAdmission (mgr : SessionManager H) (clock : InitClock) (init : VerifiedInit H) :
    ((mgr.afterAdmission clock init).unexpiredPending clock.install).filter
        (fun _ p => p.expectedPeerId ≠ init.peerId)
      = (mgr.unexpiredPending clock.install).filter fun _ p => p.expectedPeerId ≠ init.peerId := by
  have hpurge : (mgr.purgeInits clock.admission).unexpiredPending clock.install
      = mgr.unexpiredPending clock.install := unexpiredPending_purgeInits clock.admission_le_install
  rw [unexpiredPending_afterAdmission, ← hpurge, dropPendingTo]
  cases hfind : (mgr.purgeInits clock.admission).pendingTo? init.peerId with
  | none => rfl
  | some found =>
    obtain ⟨sessionId, pending⟩ := found
    obtain ⟨hentry, hpeer⟩ := SortedMap.findIf?_eq_some hfind
    simp only [unexpiredPending_eq, erasePending]
    rw [SortedMap.filter_comm, SortedMap.filter_comm (mgr.purgeInits clock.admission).pendingInitiators]
    congr 1
    apply SortedMap.filter_erase_of_not
    intro p hp
    obtain rfl := Option.some.inj (hentry.symm.trans hp)
    simpa using hpeer

/-- An INIT whose session is installed and then removed leaves the tables alone only if nothing was held
for the peer. -/
theorem unchanged_removeSession_iff (cfg : SessionConfig) (split : NoiseIkSplitResult)
    (huse : ((mgr.afterAdmission clock init).purgeIncompleteHandshakesLocked clock.install).sessionIdInUse
      init.sessionId = false) :
    Unchanged clock.install mgr
        ((((mgr.afterAdmission clock init).purgeIncompleteHandshakesLocked clock.install).establish cfg
          clock.install init.peerId init.sessionId split false).removeSession init.peerId) ↔
      mgr.holdsStateFor clock.install init.peerId = false := by
  have hsame : mgr.SameSessions ((mgr.afterAdmission clock init).purgeIncompleteHandshakesLocked clock.install) :=
    ⟨sameSessions_afterAdmission.sessions, sameSessions_afterAdmission.sessionToPeer,
      sameSessions_afterAdmission.retired⟩
  have hpending : ((((mgr.afterAdmission clock init).purgeIncompleteHandshakesLocked clock.install).establish cfg
      clock.install init.peerId init.sessionId split false).removeSession init.peerId).unexpiredPending
        clock.install
      = (mgr.unexpiredPending clock.install).filter fun _ p => p.expectedPeerId ≠ init.peerId := by
    rw [unexpiredPending_removeSession, ← otherPending_afterAdmission mgr]
    congr 1
    rw [unexpiredPending_eq, pendingInitiators_establish]
    simp only [purgeIncompleteHandshakesLocked]
    exact SortedMap.filter_filter_of_imp fun _ _ h => h
  generalize (mgr.afterAdmission clock init).purgeIncompleteHandshakesLocked clock.install = installing
    at huse hsame hpending ⊢
  have hnone {V : Type} {m : SortedMap UInt32 V} {peer : V → NodeId} :
      (m.filter fun _ v => peer v ≠ init.peerId) = m ↔
        (m.findIf? fun _ v => peer v = init.peerId).isSome = false := by
    rw [Option.isSome_eq_false_iff, Option.isNone_iff_eq_none, SortedMap.findIf?_eq_none_iff,
      SortedMap.filter_eq_self_iff]
    simp
  simp only [holdsStateFor, Bool.or_eq_false_iff, ← hnone]
  constructor
  · intro h
    have hactive : mgr.sessions.find? init.peerId = none := by
      rw [← h.sessions]
      exact find?_sessions_removeSession
    have hretired := (removeSession_establish cfg clock.install split false
      (hsame.sessions ▸ hactive) huse).2.2
    refine ⟨⟨SortedMap.contains_eq_false_iff.mpr hactive, ?_⟩, hpending.symm.trans h.pending⟩
    have := h.retired
    unfold unexpiredRetired purgeRetiredLocked at this ⊢
    rw [SortedMap.filter_comm, ← this]
    simp only [hretired, hsame.retired]
  · rintro ⟨⟨hactive, hretired⟩, hother⟩
    rw [SortedMap.contains_eq_false_iff] at hactive
    obtain ⟨hsessions, hindex, hkept⟩ := removeSession_establish cfg clock.install split false
      (hsame.sessions ▸ hactive) huse
    refine ⟨hsessions.trans hsame.sessions, hindex.trans hsame.sessionToPeer, ?_, hpending.trans hother⟩
    unfold unexpiredRetired purgeRetiredLocked at hretired ⊢
    simp only [hkept, hsame.retired]
    rw [SortedMap.filter_comm, hretired]

end SessionManager

namespace Tunnel

variable {H : Type}

/-- The rate limit, the sizes and the cookie let the frame through to the session manager. -/
def passesGate (answers : InitFrameAnswers) (data : List UInt8) (header : PacketHeader) : Bool :=
  answers.allowed && header.payloadLength.toNat = data.length - PACKET_HEADER_SIZE && cookieValid answers data

/-- The answer to an admitted INIT reaches the send queue: there is room for the peer and the queue takes
the RESP. -/
def delivers (node : Tunnel H) (answers : InitFrameAnswers) (init : VerifiedInit H) (sessionId : UInt32)
    (message : List UInt8) : Bool :=
  node.peers.accepts init.peerId init.peerStatic &&
    answers.sent (handshakeWire TYPE_HANDSHAKE_RESP sessionId message)

/-- What is at stake in a frame: nothing unless its INIT is admitted; the pending initiation it ends, if it
cannot be answered; everything held for the peer, if the answer is not delivered. -/
def destroysState (P : Primitives H) (cfg : SessionConfig) (node : Tunnel H) (answers : InitFrameAnswers)
    (data : List UInt8) (header : PacketHeader) : Bool :=
  passesGate answers data header &&
    (node.sessionManager.admittedInit P cfg answers.clock (initFrameOf data) header.sessionId
      answers.entropy).any fun init =>
        match writeResponse P init with
        | some (message, _) =>
          if node.sessionManager.hasRoomFor cfg init.peerId then
            !node.delivers answers init header.sessionId message &&
              node.sessionManager.holdsStateFor answers.clock.install init.peerId
          else node.sessionManager.losesPending answers.clock init.peerId
        | none => node.sessionManager.losesPending answers.clock init.peerId

variable {P : Primitives H} {cfg : SessionConfig} {node : Tunnel H} {answers : InitFrameAnswers}
  {data : List UInt8} {header : PacketHeader} {sender : Endpoint}

theorem handleHandshakeInitFrame_of_not_gate (h : passesGate answers data header = false) :
    (handleHandshakeInitFrame P cfg node answers data header sender).1 = node := by
  unfold handleHandshakeInitFrame
  simp only [passesGate, Bool.and_eq_false_iff, decide_eq_false_iff_not] at h
  split_ifs with hallowed hsize hcookie
  · rfl
  · rfl
  · cases answers.issued <;> rfl
  · rcases h with (h | h) | h
    · simp [h] at hallowed
    · exact absurd (Or.inr h) hsize
    · simp [h] at hcookie

theorem handleHandshakeInitFrame_of_gate (h : passesGate answers data header = true) :
    handleHandshakeInitFrame P cfg node answers data header sender =
      match node.sessionManager.handleHandshakeInit P cfg answers.clock (initFrameOf data) header.sessionId
        answers.entropy with
      | (mgr, none) => ({ node with sessionManager := mgr }, .dropped)
      | (mgr, some response) =>
        ({ node with sessionManager := mgr } : Tunnel H).answerInit answers response header.sessionId sender := by
  simp only [passesGate, Bool.and_eq_true, decide_eq_true_eq] at h
  obtain ⟨⟨hallowed, hlength⟩, hcookie⟩ := h
  have hsize : data.length = INIT_FRAME_COOKIE_SIZE := by
    simp only [cookieValid, Bool.and_eq_true, decide_eq_true_eq] at hcookie
    exact hcookie.1
  simp only [handleHandshakeInitFrame, hallowed, hcookie, hlength, hsize, Bool.not_true, Bool.false_eq_true,
    ne_eq, not_true_eq_false, and_false, or_false, if_false]

/-- After the session manager has answered, the session stays if the answer is delivered and is removed if
not. -/
theorem answerInit_cases (node : Tunnel H) (answers : InitFrameAnswers) (init : VerifiedInit H)
    (message : List UInt8) (sessionId : UInt32) (sender : Endpoint) :
    (node.delivers answers init sessionId message = true ∧
      (node.answerInit answers ⟨message, init.peerId, init.peerStatic⟩ sessionId sender).2
        = .answered (handshakeWire TYPE_HANDSHAKE_RESP sessionId message)) ∨
    (node.delivers answers init sessionId message = false ∧
      (node.answerInit answers ⟨message, init.peerId, init.peerStatic⟩ sessionId sender).2 = .dropped ∧
      (node.answerInit answers ⟨message, init.peerId, init.peerStatic⟩ sessionId sender).1.sessionManager
        = node.sessionManager.removeSession init.peerId) := by
  unfold delivers answerInit
  rcases node.peers.upsert_cases answers.upsertedAt init.peerId init.peerStatic (some sender) false with
    ⟨haccepts, hupsert | hupsert⟩ | ⟨haccepts, hconflict, hfull⟩
  · exact Or.inr (by simp [haccepts, hupsert])
  · exact Or.inr (by simp [haccepts, hupsert])
  · generalize node.peers.upsert answers.upsertedAt init.peerId init.peerStatic (some sender) false = upserted
      at hconflict hfull ⊢
    obtain ⟨peers, result⟩ := upserted
    cases hsent : answers.sent (handshakeWire TYPE_HANDSHAKE_RESP sessionId message) with
    | true => cases result <;> simp_all
    | false => cases result <;> simp_all

/-- A frame that ends without a RESP in the send queue leaves the sessions, and the unexpired retired
sessions and pending initiations, as they were, exactly when it does not destroy state. -/
theorem initFrame_atomic_iff (P : Primitives H) (cfg : SessionConfig) (node : Tunnel H)
    (answers : InitFrameAnswers) (data : List UInt8) (header : PacketHeader) (sender : Endpoint) :
    ((∀ wire, (handleHandshakeInitFrame P cfg node answers data header sender).2 ≠ .answered wire) →
      SessionManager.Unchanged answers.clock.install node.sessionManager
        (handleHandshakeInitFrame P cfg node answers data header sender).1.sessionManager) ↔
    destroysState P cfg node answers data header = false := by
  cases hgate : passesGate answers data header with
  | false =>
    rw [handleHandshakeInitFrame_of_not_gate hgate]
    simp only [destroysState, hgate, Bool.false_and, iff_true]
    exact fun _ => ⟨rfl, rfl, rfl, rfl⟩
  | true =>
    rw [handleHandshakeInitFrame_of_gate hgate, destroysState, hgate, Bool.true_and]
    cases hadmitted : node.sessionManager.admittedInit P cfg answers.clock (initFrameOf data) header.sessionId
        answers.entropy with
    | none =>
      obtain ⟨hnone, hsame, hpending⟩ := SessionManager.handleHandshakeInit_of_refused hadmitted
      generalize node.sessionManager.handleHandshakeInit P cfg answers.clock (initFrameOf data)
        header.sessionId answers.entropy = handled at hnone hsame hpending ⊢
      obtain ⟨mgr, response⟩ := handled
      subst hnone
      simp only [Option.any_none, iff_true]
      exact fun _ => ⟨hsame.sessions, hsame.sessionToPeer, hsame.unexpiredRetired, hpending⟩
    | some init =>
      have huse := SessionManager.not_inUse_afterAdmission hadmitted
      rw [SessionManager.handleHandshakeInit_of_admittedInit hadmitted]
      have hunanswered : ((∀ wire, InitFrameOutcome.dropped ≠ .answered wire) →
          SessionManager.Unchanged answers.clock.install node.sessionManager
            (node.sessionManager.afterAdmission answers.clock init)) ↔
          node.sessionManager.losesPending answers.clock init.peerId = false := by
        rw [← SessionManager.unchanged_afterAdmission_iff]
        simp
      cases hwrite : writeResponse P init with
      | none => simpa only [hwrite, Option.any_some] using hunanswered
      | some written =>
        obtain ⟨message, split⟩ := written
        cases hroom : node.sessionManager.hasRoomFor cfg init.peerId with
        | false => simpa [hwrite, hroom] using hunanswered
        | true =>
          simp only [hwrite, hroom, if_true, Option.any_some]
          generalize hinstalled : SessionManager.establish cfg _ _ _ _ _ _ = installed
          have hremoved := SessionManager.unchanged_removeSession_iff cfg split huse
          rw [hinstalled] at hremoved
          have hdelivers : ({ node with sessionManager := installed } : Tunnel H).delivers answers init
              header.sessionId message = node.delivers answers init header.sessionId message := rfl
          rcases answerInit_cases { node with sessionManager := installed } answers init message header.sessionId
              sender with
            ⟨hdelivered, houtcome⟩ | ⟨hdelivered, houtcome, hmgr⟩
          · rw [hdelivers] at hdelivered
            simp only [houtcome, hdelivered, Bool.not_true, Bool.false_and, iff_true]
            exact fun h => absurd rfl (h _)
          · rw [hdelivers] at hdelivered
            simp only [houtcome, hmgr, hdelivered, Bool.not_false, Bool.true_and, ← hremoved]
            simp

/-- The datagram of an INIT of node 2 to node 1, with a cookie. -/
def sampleInitFrame (sessionId : UInt32) (seed : UInt8) : List UInt8 × PacketHeader :=
  let message := Interleaving.sampleInit sessionId seed ++ List.replicate HANDSHAKE_COOKIE_SIZE 0
  (handshakeWire 0x00 sessionId message, ⟨PACKET_VERSION, 0x00, 0, 0, sessionId, 0, UInt32.ofNat message.length⟩)

/-- Node 1 after it answered an INIT of node 2. -/
def sampleNode : Tunnel ClearHandshake :=
  (handleHandshakeInitFrame clearPrimitives (.sample 1) {} ⟨true, fun _ => true, none, fun _ => true, .still 0,
    Interleaving.sampleEntropy, 0, 0⟩ (sampleInitFrame 7 1).1 (sampleInitFrame 7 1).2 {}).1

/-- The send queue refuses the answer to a rekey, and the session that worked until then is gone. -/
theorem initFrame_destroys_session :
    let answers : InitFrameAnswers :=
      ⟨true, fun _ => true, none, fun _ => false, .still 1000, Interleaving.sampleEntropy, 1000, 1000⟩
    let result := handleHandshakeInitFrame clearPrimitives (.sample 1) sampleNode answers
      (sampleInitFrame 8 2).1 (sampleInitFrame 8 2).2 {}
    (sampleNode.sessionManager.findSessionByIdLocked 7).isSome = true ∧ result.2 = .dropped ∧
      result.1.sessionManager.findSessionByIdLocked 7 = none ∧
      ¬SessionManager.Unchanged answers.clock.install sampleNode.sessionManager result.1.sessionManager := by
  refine ⟨by decide +kernel, by decide +kernel, by decide +kernel, fun h => ?_⟩
  exact absurd h.sessions (by decide +kernel)

end Tunnel

end Aegis
