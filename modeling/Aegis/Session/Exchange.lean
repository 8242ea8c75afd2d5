import Aegis.Session.Manager

/-!
# One exchange between honest parties

What `NoiseIk.Complete` gives at the level of frames: an INIT written for a manager is one it can answer if
it can read it at all, it names its sender, and the answer is one the waiting initiation accepts.
-/

namespace Aegis

variable {H : Type} {P : Primitives H}

/-- The pending initiation accepts the RESP `message`. -/
def Answers (P : Primitives H) (state : PendingInitiator H) (sessionId : UInt32) (message : List UInt8) : Prop :=
  ∃ frame split, parseHandshakeV2Response message = some frame ∧ frame.sessionId = sessionId ∧
    readResponse P state frame.noiseMessage.1 = some split

theorem writeInit_eq_some {cfg : SessionConfig} {sessionId : UInt32} {peerId : NodeId} {peerStatic : X25519Key}
    {entropy : Entropy} {message : List UInt8} {sent : H}
    (h : writeInit P cfg sessionId peerId peerStatic entropy = some (message, sent)) :
    sessionId ≠ 0 ∧ peerId = P.hashPublicKey peerStatic ∧
      ∃ prologue start noiseMessage,
        makeHandshakeV2Prologue cfg.identity.networkId sessionId = some prologue ∧
        P.noise.createInitiator cfg.identity.privateKey peerStatic prologue entropy = some start ∧
        P.noise.writeMessage start = some (noiseMessage.1, sent) ∧
        serializeHandshakeV2Init ⟨sessionId, cfg.identity.networkId, noiseMessage⟩ = some message := by
  simp only [writeInit, Option.bind_eq_bind, Option.ite_none_left_eq_some, Option.bind_eq_some_iff,
    not_or, not_not] at h
  obtain ⟨⟨hid, -, hpeer⟩, prologue, hprologue, start, hstart, ⟨written, sent'⟩, hwrite, h⟩ := h
  split_ifs at h with hsize
  simp only [Option.bind_eq_some_iff, Option.some.injEq, Prod.mk.injEq] at h
  obtain ⟨_, hencode, rfl, rfl⟩ := h
  exact ⟨hid, hpeer, prologue, start, ⟨written, hsize⟩, hprologue, hstart, hwrite, hencode⟩

theorem serializeHandshakeV2Response_isSome (frame : HandshakeV2ResponseFrame) (h : frame.sessionId ≠ 0) :
    ∃ message, serializeHandshakeV2Response frame = some message := by
  simp [serializeHandshakeV2Response, writeHeader_of_ne h]

/-- The exchange from the responder's side: once the INIT is read, its sender is known, the RESP can be
written, and the initiation that sent the INIT accepts it. -/
theorem answers_of_readInit {publicKey : X25519PrivateKey → X25519Key} (hcomplete : P.noise.Complete publicKey)
    {initiator responder : SessionConfig} {sessionId : UInt32} {responderId : NodeId} {entropy entropy' : Entropy}
    {message : List UInt8} {sent : H} {frame : HandshakeV2InitFrame} {replayKey : CryptoHash} {init : VerifiedInit H}
    (hwrite : writeInit P initiator sessionId responderId (publicKey responder.identity.privateKey) entropy
      = some (message, sent)) (hparse : parseInit P responder message sessionId = some (frame, replayKey))
    (hread : readInit P responder frame replayKey entropy' = some init) :
    init.sessionId = sessionId ∧ init.peerId = P.hashPublicKey (publicKey initiator.identity.privateKey) ∧
      ∃ encoded split, writeResponse P init = some (encoded, split) ∧
        ∀ expires, Answers P ⟨responderId, publicKey responder.identity.privateKey, sent, expires⟩ sessionId
          encoded := by
  obtain ⟨hid, hresponder, prologue, start, first, hprologue, hstart, hfirst, hencode⟩ := writeInit_eq_some hwrite
  simp only [parseInit, parseHandshakeV2Init_serialize hencode, Option.bind_eq_bind, Option.bind_some,
    Option.ite_none_left_eq_some, Option.bind_eq_some_iff, Option.some.injEq, Prod.mk.injEq, not_or,
    not_not] at hparse
  obtain ⟨⟨-, hnetwork⟩, replayKey', -, rfl, rfl⟩ := hparse
  simp only [readInit, Option.bind_eq_bind, Option.bind_eq_some_iff, Option.ite_none_left_eq_some,
    Option.some.injEq] at hread
  obtain ⟨prologue', hprologue', listening, hlisten, heard, hheard, peerStatic, hpeer, -, rfl⟩ := hread
  -- Both ends derive the prologue from the same network and session ids.
  obtain rfl : prologue = prologue' := by
    rw [← hnetwork, hprologue] at hprologue'
    exact Option.some.inj hprologue'
  obtain ⟨heard', second, answered, responderKeys, finished, initiatorKeys, hheard', hpeer', hsecond, hsize,
    hsplit, hfinished, hremote, hkeys, -⟩ :=
    hcomplete _ _ _ _ _ _ _ _ _ hstart hfirst hlisten
  obtain rfl : heard = heard' := Option.some.inj (hheard.symm.trans hheard')
  obtain rfl : peerStatic = publicKey initiator.identity.privateKey := Option.some.inj (hpeer.symm.trans hpeer')
  obtain ⟨encoded, hencoded⟩ := serializeHandshakeV2Response_isSome ⟨sessionId, ⟨second, hsize⟩⟩ hid
  refine ⟨rfl, rfl, encoded, responderKeys, ?_, fun expires => ?_⟩
  · have hsize' : second.length = HANDSHAKE_V2_RESPONSE_NOISE_SIZE := hsize
    simp only [writeResponse, hsecond, Option.bind_eq_bind, Option.bind_some, hsize', dif_pos, hsplit, hencoded]
  · refine ⟨_, initiatorKeys, parseHandshakeV2Response_serialize hencoded, rfl, ?_⟩
    simp [readResponse, hfinished, hremote, hkeys, hresponder]

namespace SessionManager

variable {cfg : SessionConfig} {mgr : SessionManager H} {now : Time} {sessionId : UInt32} {message : List UInt8}

theorem handleHandshakeResp_of_none
    (h : (mgr.purgeIncompleteHandshakesLocked now).pendingInitiators.find? sessionId = none) :
    mgr.handleHandshakeResp P cfg now message sessionId = (mgr.purgeIncompleteHandshakesLocked now, false) := by
  simp only [handleHandshakeResp, h]

theorem handleHandshakeResp_of_answers {state : PendingInitiator H}
    (hfind : (mgr.purgeIncompleteHandshakesLocked now).pendingInitiators.find? sessionId = some state)
    (hanswers : Answers P state sessionId message) (hroom : mgr.hasRoomFor cfg state.expectedPeerId = true) :
    ∃ split, (mgr.handleHandshakeResp P cfg now message sessionId).1 =
      if mgr.activeRemotely state.expectedPeerId = true ∧ state.expectedPeerId < cfg.identity.nodeId then
        (mgr.purgeIncompleteHandshakesLocked now).erasePending sessionId
      else
        ((mgr.purgeIncompleteHandshakesLocked now).erasePending sessionId).establish cfg now
          state.expectedPeerId sessionId split true := by
  obtain ⟨frame, split, hparse, hid, hread⟩ := hanswers
  have hremote : ((mgr.purgeIncompleteHandshakesLocked now).erasePending sessionId).activeRemotely
      state.expectedPeerId = mgr.activeRemotely state.expectedPeerId := rfl
  have hroom' : ((mgr.purgeIncompleteHandshakesLocked now).erasePending sessionId).hasRoomFor cfg
      state.expectedPeerId = true := hroom
  have hframe : (some frame).filter (fun frame => decide (frame.sessionId = sessionId)) = some frame := by
    simp [hid]
  refine ⟨split, ?_⟩
  simp only [handleHandshakeResp, hfind, hparse, hframe, hread, hremote, hroom', Bool.and_eq_true,
    decide_eq_true_eq, Bool.not_true, Bool.false_eq_true, if_false]
  split_ifs <;> rfl

theorem initInstall_of_writeResponse {init : VerifiedInit H} {encoded : List UInt8} {split : NoiseIkSplitResult}
    (hwrite : writeResponse P init = some (encoded, split))
    (huse : (mgr.purgeIncompleteHandshakesLocked now).sessionIdInUse init.sessionId = false)
    (hroom : mgr.hasRoomFor cfg init.peerId = true) :
    mgr.initInstall P cfg now init =
      ((mgr.purgeIncompleteHandshakesLocked now).establish cfg now init.peerId init.sessionId split false,
        some ⟨encoded, init.peerId, init.peerStatic⟩) := by
  have hroom' : (mgr.purgeIncompleteHandshakesLocked now).hasRoomFor cfg init.peerId = true := hroom
  simp [initInstall, hwrite, huse, hroom']

end SessionManager

end Aegis
