import Aegis.Packet.Mtu
import Aegis.Session.Delivery

/-!
# Sizes of session frames

A frame is 44 bytes and its padded payload. Sealing and opening are the only places where a payload's size
changes on the way, so what a frame can carry, and what comes out of one, follow from the lengths alone. Both
ends compute them on their own: the sender rounds up to its bucket, the receiver reads that bucket from the
payload and never looks at its own.
-/

namespace Aegis

variable {H : Type} {P : Primitives H}

theorem length_sealFrame {session : SessionState} {packetType flags : UInt8} {protectedPayload frame : List UInt8}
    (h : sealFrame P session packetType flags protectedPayload = some frame) :
    frame.length = 44 + protectedPayload.length := by
  unfold sealFrame at h
  simp only [Option.bind_eq_bind, Option.bind_eq_some_iff] at h
  obtain ⟨⟨ciphertext, tag⟩, hseal, heq⟩ := h
  obtain rfl := Option.some.inj heq
  simp only [List.length_append, length_serializePacketHeader, PACKET_HEADER_SIZE, tag.2,
    (frameNonce session.id session.sendSeq).2, P.aead.length_encrypt hseal]
  omega

theorem length_drawPadding {entropy : Entropy} {paddingSize : Nat} {padding : List UInt8}
    (h : drawPadding entropy paddingSize = some padding) : padding.length = paddingSize := by
  unfold drawPadding at h
  split_ifs at h with hzero
  · obtain rfl := Option.some.inj h
    exact hzero.symm
  · exact Entropy.length_fill h

namespace SessionManager

theorem length_encryptMessage {cfg : SessionConfig} {mgr : SessionManager H} {peerId : NodeId}
    {packetType flags : UInt8} {plaintext frame : List UInt8} {entropy : Entropy}
    (h : (mgr.encryptMessage P cfg peerId packetType plaintext flags entropy).2 = some frame) :
    isSupportedSessionPaddingBucket cfg.paddingBucketSize = true ∧
    plaintext.length ≤ SESSION_MAX_LOGICAL_PAYLOAD_SIZE ∧
    frame.length = 44 + sessionPaddedPlaintextSize plaintext.length cfg.paddingBucketSize := by
  unfold encryptMessage at h
  simp only at h
  split_ifs at h with hinput hlarge
  simp only [Bool.not_eq_true', not_or, not_lt, Bool.not_eq_false] at hinput
  obtain ⟨hbucket, hsize, -⟩ := hinput
  obtain ⟨hroom, -, -⟩ := sessionPaddedPlaintextSize_bounds hbucket hsize
  refine ⟨hbucket, hsize, ?_⟩
  cases hfind : mgr.findSessionLocked peerId with
  | none => simp [hfind] at h
  | some session =>
    cases hdraw : drawPadding entropy (sessionPaddedPlaintextSize plaintext.length cfg.paddingBucketSize -
        (SESSION_LENGTH_PREFIX_SIZE + plaintext.length)) with
    | none => simp [hfind, hdraw] at h
    | some padding =>
      simp only [hfind, hdraw] at h
      rw [length_sealFrame h, length_protectPayload, length_drawPadding hdraw]
      simp only [SESSION_LENGTH_PREFIX_SIZE] at hroom ⊢
      omega

theorem encryptMessage_isSome_iff (hP : P.aead.Correct) {cfg : SessionConfig}
    (hbucket : isSupportedSessionPaddingBucket cfg.paddingBucketSize = true) {mgr : SessionManager H}
    {peerId : NodeId} (hsession : (mgr.findSessionLocked peerId).isSome) {entropy : Entropy}
    (hentropy : entropy.isSome) (packetType : UInt8) {flags : UInt8}
    (hflags : flags &&& ~~~PACKET_KNOWN_FLAGS = 0) (plaintext : List UInt8) :
    (mgr.encryptMessage P cfg peerId packetType plaintext flags entropy).2.isSome ↔
      plaintext.length ≤ SESSION_MAX_LOGICAL_PAYLOAD_SIZE := by
  constructor
  · intro h
    obtain ⟨frame, hframe⟩ := Option.isSome_iff_exists.mp h
    exact (length_encryptMessage hframe).2.1
  · intro hsize
    obtain ⟨session, hfind⟩ := Option.isSome_iff_exists.mp hsession
    obtain ⟨padding, hpadding, heq⟩ := @encryptMessage_of_sendable H P cfg hbucket mgr peerId session hfind
      ⟨packetType, flags, plaintext, entropy⟩ ⟨hsize, hflags, hentropy⟩
    obtain ⟨ciphertext, tag, hseal, -⟩ := hP session.sendKey (frameNonce session.id session.sendSeq)
      (protectPayload cfg.paddingBucketSize plaintext padding)
      (serializePacketHeader (session.frameHeader packetType flags
        (protectPayload cfg.paddingBucketSize plaintext padding).length))
    rw [heq]
    simp [sealFrame, hseal]

end SessionManager

theorem length_parseFrame {data : List UInt8} {header : PacketHeader} (h : parseFrame data = some header) :
    data.length = 44 + header.payloadLength.toNat := by
  unfold parseFrame at h
  split_ifs at h
  simp only [Option.bind_eq_bind, Option.bind_eq_some_iff] at h
  obtain ⟨parsed, -, h⟩ := h
  split_ifs at h with hfields hbounds hsize
  obtain rfl := Option.some.inj h
  omega

theorem length_openFrame {key : ChaCha20Poly1305Key} {size : Nat} {data protectedPayload : List UInt8}
    (h : openFrame P key size data = some protectedPayload) : protectedPayload.length ≤ size := by
  rw [P.aead.length_decrypt h]
  exact List.length_take_le _ _

theorem length_unprotectPayload {protectedPayload payload : List UInt8}
    (h : unprotectPayload protectedPayload = some payload) : payload.length + 4 ≤ protectedPayload.length := by
  unfold unprotectPayload at h
  simp only [Option.bind_eq_bind, Option.bind_eq_some_iff] at h
  obtain ⟨⟨logicalLength, r₁⟩, hlogical, ⟨bucketSize, r₂⟩, hbucket, h⟩ := h
  split_ifs at h
  simp only [Option.bind_eq_some_iff] at h
  obtain ⟨⟨logicalPayload, r₃⟩, hpayload, _, -, h⟩ := h
  split_ifs at h
  obtain rfl := Option.some.inj h
  have h₁ := WireReader.readU16_eq_some hlogical
  have h₂ := WireReader.readU16_eq_some hbucket
  have h₃ := congrArg List.length (WireReader.readBytes_eq_some hpayload).2
  simp only [List.length_append] at h₁ h₂ h₃ ⊢
  omega

theorem SessionManager.length_decryptMessage {mgr : SessionManager H} {data : List UInt8}
    {message : DecryptedMessage} (h : (mgr.decryptMessage P data).2 = some message) :
    message.payload.length + 48 ≤ data.length := by
  unfold decryptMessage at h
  cases hparse : parseFrame data with
  | none => simp [hparse] at h
  | some header =>
    cases hfind : mgr.findSessionByIdLocked header.sessionId with
    | none => simp [hparse, hfind] at h
    | some session =>
      simp only [hparse, hfind] at h
      split_ifs at h
      cases hopen : openFrame P session.recvKey header.payloadLength.toNat data with
      | none => simp [hopen] at h
      | some protectedPayload =>
        simp only [hopen, Option.map_eq_some_iff] at h
        obtain ⟨payload, hunprotect, rfl⟩ := h
        have hframe := length_parseFrame hparse
        have hbox := length_openFrame hopen
        have hpayload := length_unprotectPayload hunprotect
        show payload.length + 48 ≤ data.length
        omega

/-! ### The round trip -/

theorem SessionManager.decryptMessage_encryptMessage {P : Primitives H} (hP : P.aead.Correct) {cfg : SessionConfig}
    (hbucket : isSupportedSessionPaddingBucket cfg.paddingBucketSize = true) {sender receiver : SessionManager H}
    {peerId : NodeId} {sending receiving : SessionState} (hsending : sender.findSessionLocked peerId = some sending)
    (hreceiving : receiver.findSessionByIdLocked sending.id = some receiving)
    (hkey : receiving.recvKey = sending.sendKey) (hseq : sending.sendSeq.toNat < 2 ^ 32)
    (hfresh : receiving.checkReplay sending.sendSeq = true) {message : Outgoing} (hmessage : message.Sendable)
    {frame : List UInt8} (hframe : (sender.encryptMessage P cfg peerId message.packetType message.payload message.flags
      message.entropy).2 = some frame) :
    (receiver.decryptMessage P frame).2 = some ⟨message.packetType, message.payload⟩ := by
  obtain ⟨plaintext, frame', header, hencrypt, -, -, hparse, htype, hid, hnumber, hopen, hunprotect⟩ :=
    encryptMessage_opens hP hbucket hsending hmessage
  rw [hencrypt] at hframe
  obtain rfl := Option.some.inj hframe
  have hwire : header.sequenceNumber.toUInt64 = sending.sendSeq := by
    apply UInt64.toNat_inj.mp
    rw [hnumber, UInt32.toNat_toUInt64, UInt64.toNat_toUInt32]
    exact Nat.mod_eq_of_lt hseq
  rw [decryptMessage_of_open hparse (by rw [hid]; exact hreceiving) (by rw [hwire]; exact hfresh)
    (by rw [hkey]; exact hopen), hunprotect, htype]
  rfl

/-- Framing a payload and opening the frame gives the payload back, for every length, bucket and padding: the
sealed plaintext is a whole number of buckets within the session buffer, the frame is within its overhead, and
the receiver, whatever its own bucket, returns type and payload. -/
theorem session_frame_round_trip {P : Primitives H} (hP : P.aead.Correct) (cfg : SessionConfig)
    (hbucket : isSupportedSessionPaddingBucket cfg.paddingBucketSize = true) (sender receiver : SessionManager H)
    (peerId : NodeId) (sending receiving : SessionState)
    (hsending : sender.findSessionLocked peerId = some sending)
    (hreceiving : receiver.findSessionByIdLocked sending.id = some receiving)
    (hkey : receiving.recvKey = sending.sendKey) (hseq : sending.sendSeq.toNat < 2 ^ 32)
    (hfresh : receiving.checkReplay sending.sendSeq = true) (packetType flags : UInt8)
    (hflags : flags &&& ~~~PACKET_KNOWN_FLAGS = 0) (payload : List UInt8) (hsize : payload.length ≤ 4092)
    (entropy : Entropy) (hentropy : entropy.isSome) :
    ∃ plaintext frame,
      (sender.encryptMessage P cfg peerId packetType payload flags entropy).2 = some frame ∧
      sealFrame P sending packetType flags plaintext = some frame ∧
      cfg.paddingBucketSize ∣ plaintext.length ∧ plaintext.length ≤ 4096 ∧
      frame.length ≤ payload.length + sessionFrameOverhead cfg.paddingBucketSize ∧
      (receiver.decryptMessage P frame).2 = some ⟨packetType, payload⟩ := by
  have hmessage : Outgoing.Sendable ⟨packetType, flags, payload, entropy⟩ := ⟨hsize, hflags, hentropy⟩
  obtain ⟨plaintext, frame, -, hencrypt, hlength, hseal, -⟩ :=
    SessionManager.encryptMessage_opens hP hbucket hsending hmessage
  have hframe : (sender.encryptMessage P cfg peerId packetType payload flags entropy).2 = some frame := by
    rw [hencrypt]
  refine ⟨plaintext, frame, hframe, hseal, ?_, ?_, ?_, ?_⟩
  · rw [hlength]
    exact bucket_dvd_sessionPaddedPlaintextSize _ _
  · rw [hlength]
    exact (sessionPaddedPlaintextSize_bounds hbucket hsize).2.2
  · have hpadded := @sessionPaddedPlaintextSize_le_add payload.length _ hbucket
    rw [length_sealFrame hseal, hlength]
    simp only [sessionFrameOverhead, sessionMaxPaddingForBucket, hbucket, if_true, PACKET_HEADER_SIZE]
    omega
  · exact SessionManager.decryptMessage_encryptMessage hP hbucket hsending hreceiving hkey hseq hfresh hmessage hframe

theorem session_frame_round_trip_largest :
    ∃ plaintext frame : List UInt8,
      (Link.sampleLink.sender.encryptMessage clearPrimitives (.sample 1) (FixedBytes.copy 32 [2]) 2
        (List.replicate 4092 7) FLAG_RELAY (some fun _ => 9)).2 = some frame ∧ plaintext.length ≤ 4096 ∧
      (Link.sampleLink.receiver.decryptMessage clearPrimitives frame).2 = some ⟨2, List.replicate 4092 7⟩ := by
  obtain ⟨sending, receiving, hsending, hreceiving, hkey, hzero, hlast, hwindow⟩ := Link.sampleLink_fresh
  have hfresh : receiving.checkReplay sending.sendSeq = true := by
    simp [SessionState.checkReplay, REPLAY_BITS, hzero, hlast, hwindow]
  obtain ⟨plaintext, frame, hframe, -, -, hfits, -, hopened⟩ :=
    @session_frame_round_trip _ clearPrimitives clearAead_correct (.sample 1) rfl Link.sampleLink.sender
      Link.sampleLink.receiver (FixedBytes.copy 32 [2]) sending receiving hsending hreceiving hkey
      (by rw [hzero]; decide) hfresh 2 FLAG_RELAY (by decide) (List.replicate 4092 7)
      (by rw [List.length_replicate]) (some fun _ => 9) rfl
  exact ⟨plaintext, frame, hframe, hfits, hopened⟩

end Aegis
