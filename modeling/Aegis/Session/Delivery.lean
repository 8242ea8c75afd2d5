import Aegis.Session.Transport

/-!
# In-order delivery over a session

A link is a sender and a receiver whose tables hold the two ends of one session. Sealing a message and
handing the frame to the receiver is one `send`. The receiver's window records the 32-bit sequence numbers
it has taken; the sender's counter has 64 bits, and the wire carries its low half. So message number `n` is
delivered exactly while `n < 2 ^ 32`: afterwards every number the wire can carry has been seen.
-/

namespace Aegis

variable {H : Type}

/-! ### What was sealed opens -/

theorem length_protectPayload (bucketSize : Nat) (plaintext padding : List UInt8) :
    (protectPayload bucketSize plaintext padding).length = 4 + plaintext.length + padding.length := by
  simp [protectPayload]
  omega

theorem unprotectPayload_protect {bucketSize : Nat} {plaintext padding : List UInt8}
    (hbucket : isSupportedSessionPaddingBucket bucketSize = true)
    (hsize : plaintext.length ≤ SESSION_MAX_LOGICAL_PAYLOAD_SIZE)
    (hpadding : SESSION_LENGTH_PREFIX_SIZE + plaintext.length + padding.length
      = sessionPaddedPlaintextSize plaintext.length bucketSize) :
    unprotectPayload (protectPayload bucketSize plaintext padding) = some plaintext := by
  have hlength : plaintext.length < 65536 := hsize.trans_lt (by decide)
  have hsmall : bucketSize < 65536 := by
    rcases supportedBucket_cases hbucket with rfl | rfl | rfl | rfl <;> decide
  have hfits : sessionPaddedPlaintextSize plaintext.length bucketSize
      = (protectPayload bucketSize plaintext padding).length := by
    rw [length_protectPayload, ← hpadding]
    rfl
  have hover : ¬SESSION_MAX_LOGICAL_PAYLOAD_SIZE < plaintext.length := not_lt.mpr hsize
  unfold unprotectPayload
  simp only [hfits.symm]
  rw [protectPayload, List.append_assoc, List.append_assoc, WireReader.readU16_beBytes_of_lt hlength]
  simp only [Option.bind_eq_bind, Option.bind_some]
  rw [WireReader.readU16_beBytes_of_lt hsmall]
  simp only [Option.bind_some, UInt16.toNat_ofNat_of_lt' hlength, UInt16.toNat_ofNat_of_lt' hsmall, hbucket,
    hover, Bool.not_true, Bool.false_eq_true, ne_eq, not_true_eq_false, or_self, if_false]
  rw [WireReader.readBytes_append rfl]
  simp only [Option.bind_some]
  have hrest : (WireReader.mk padding).readBytes (WireReader.mk padding).remaining = some (padding, ⟨[]⟩) := by
    have := @WireReader.readBytes_append padding.length padding [] rfl
    rwa [List.append_nil] at this
  rw [hrest]
  rfl

theorem toNat_payloadLength_frameHeader (session : SessionState) (packetType flags : UInt8) {size : Nat}
    (hmax : size ≤ SESSION_MAX_PAYLOAD_SIZE) :
    (session.frameHeader packetType flags size).payloadLength.toNat = size := by
  show (UInt32.ofNat size).toNat = _
  rw [UInt32.toNat_ofNat_of_lt']
  exact hmax.trans_lt (by decide)

theorem sealFrame_opens {P : Primitives H} (hP : P.aead.Correct) (session : SessionState)
    (packetType : UInt8) {flags : UInt8} (hflags : flags &&& ~~~PACKET_KNOWN_FLAGS = 0)
    {protectedPayload : List UInt8} (hmin : SESSION_PADDING_BUCKET_MIN ≤ protectedPayload.length)
    (hmax : protectedPayload.length ≤ SESSION_MAX_PAYLOAD_SIZE) :
    ∃ frame, sealFrame P session packetType flags protectedPayload = some frame ∧
      parseFrame frame = some (session.frameHeader packetType flags protectedPayload.length) ∧
      openFrame P session.sendKey protectedPayload.length frame = some protectedPayload := by
  generalize hheader : session.frameHeader packetType flags protectedPayload.length = header
  generalize hnonce : frameNonce session.id session.sendSeq = nonce
  obtain ⟨ciphertext, tag, hseal, hopen⟩ :=
    hP session.sendKey nonce protectedPayload (serializePacketHeader header)
  have hlen := P.aead.length_encrypt hseal
  have hsixteen : (serializePacketHeader header).length = 16 := length_serializePacketHeader header
  have hframe : sealFrame P session packetType flags protectedPayload
      = some (serializePacketHeader header ++ (nonce.1 ++ (ciphertext ++ tag.1))) := by
    simp [sealFrame, hheader, hnonce, hseal]
  have htake : (serializePacketHeader header ++ (nonce.1 ++ (ciphertext ++ tag.1))).take 16
      = serializePacketHeader header := by
    rw [List.take_append_of_le_length (by omega), List.take_of_length_le (by omega)]
  have hdrop : (serializePacketHeader header ++ (nonce.1 ++ (ciphertext ++ tag.1))).drop 16
      = nonce.1 ++ (ciphertext ++ tag.1) := by
    rw [List.drop_append_of_le_length (by omega), List.drop_of_length_le (by omega), List.nil_append]
  refine ⟨_, hframe, ?_, ?_⟩
  · have hpayload : header.payloadLength.toNat = protectedPayload.length := by
      rw [← hheader]
      exact toNat_payloadLength_frameHeader session packetType flags hmax
    have hfixed : header.version = PACKET_VERSION ∧ header.reserved = 0 ∧ header.flags = flags := by
      rw [← hheader]
      exact ⟨rfl, rfl, rfl⟩
    have hsize : (serializePacketHeader header ++ (nonce.1 ++ (ciphertext ++ tag.1))).length
        = 16 + 12 + protectedPayload.length + 16 := by
      simp only [List.length_append, hsixteen, nonce.2, tag.2, hlen]
      omega
    have hlong : ¬16 + 12 + protectedPayload.length + 16
        < 16 + 12 + SESSION_PADDING_BUCKET_MIN + CHACHA20_POLY1305_TAG_SIZE := by
      simp only [CHACHA20_POLY1305_TAG_SIZE]
      omega
    simp [parseFrame, hsize, hlong, PACKET_HEADER_SIZE, htake, parsePacketHeader_serialize, hfixed, hflags,
      hpayload, not_lt.mpr hmin, not_lt.mpr hmax]
  · have hnonceSlice : (nonce.1 ++ (ciphertext ++ tag.1)).take 12 = nonce.1 := by
      rw [List.take_append_of_le_length (by rw [nonce.2]), List.take_of_length_le (by rw [nonce.2])]
    have hbox : (serializePacketHeader header ++ (nonce.1 ++ (ciphertext ++ tag.1))).drop 28
        = ciphertext ++ tag.1 := by
      rw [show 28 = 16 + 12 by rfl, ← List.drop_drop, hdrop,
        List.drop_append_of_le_length (by rw [nonce.2]), List.drop_of_length_le (by rw [nonce.2]),
        List.nil_append]
    have hct : (ciphertext ++ tag.1).take protectedPayload.length = ciphertext := by
      rw [List.take_append_of_le_length (by omega), List.take_of_length_le (by omega)]
    have htag : (ciphertext ++ tag.1).drop protectedPayload.length = tag.1 := by
      rw [List.drop_append_of_le_length (by omega), List.drop_of_length_le (by omega), List.nil_append]
    have htagSlice : tag.1.take 16 = tag.1 := List.take_of_length_le (by rw [tag.2])
    rw [openFrame, htake, hdrop, hnonceSlice, FixedBytes.copy_self, ← List.drop_drop, hbox, hct, htag,
      htagSlice, FixedBytes.copy_self]
    exact hopen

/-! ### Links -/

/-- One call of `encrypt_message`. -/
structure Outgoing where
  packetType : UInt8
  flags : UInt8
  payload : List UInt8
  entropy : Entropy

/-- A message within the limits of a frame, while the random source answers. -/
structure Outgoing.Sendable (message : Outgoing) : Prop where
  size : message.payload.length ≤ SESSION_MAX_LOGICAL_PAYLOAD_SIZE
  flags : message.flags &&& ~~~PACKET_KNOWN_FLAGS = 0
  entropy : message.entropy.isSome

structure Link (H : Type) where
  sender : SessionManager H
  receiver : SessionManager H

namespace Link

/-- Seal a message for `peerId` and hand the frame to the receiver. -/
def send (P : Primitives H) (cfg : SessionConfig) (peerId : NodeId) (link : Link H) (message : Outgoing) :
    Link H × Option DecryptedMessage :=
  match link.sender.encryptMessage P cfg peerId message.packetType message.payload message.flags
      message.entropy with
  | (sender, none) => (⟨sender, link.receiver⟩, none)
  | (sender, some frame) =>
    let (receiver, output) := link.receiver.decryptMessage P frame
    (⟨sender, receiver⟩, output)

/-- The link after the first `n` messages. -/
def after (P : Primitives H) (cfg : SessionConfig) (peerId : NodeId) (link : Link H)
    (messages : Nat → Outgoing) : Nat → Link H
  | 0 => link
  | n + 1 => ((after P cfg peerId link messages n).send P cfg peerId (messages n)).1

/-- What the receiver makes of message number `n`. -/
def delivered (P : Primitives H) (cfg : SessionConfig) (peerId : NodeId) (link : Link H)
    (messages : Nat → Outgoing) (n : Nat) : Option DecryptedMessage :=
  ((link.after P cfg peerId messages n).send P cfg peerId (messages n)).2

/-- Both ends hold one session, with matching keys and nothing sent yet. -/
def Fresh (link : Link H) (peerId : NodeId) : Prop :=
  ∃ sending receiving, link.sender.findSessionLocked peerId = some sending ∧
    link.receiver.findSessionByIdLocked sending.id = some receiving ∧
    receiving.recvKey = sending.sendKey ∧ sending.sendSeq = 0 ∧ receiving.recvLast = 0 ∧
    receiving.recvWindow = 0

/-- The session after `count` messages, when the receiver has taken the numbers in `seen`. -/
def Carries (link : Link H) (peerId : NodeId) (count : Nat) (seen : Set Nat) : Prop :=
  ∃ sending receiving, link.sender.findSessionLocked peerId = some sending ∧
    link.receiver.findSessionByIdLocked sending.id = some receiving ∧
    receiving.recvKey = sending.sendKey ∧ sending.sendSeq = UInt64.ofNat count ∧
    receiving.window.Records seen

theorem Fresh.carries {link : Link H} {peerId : NodeId} (h : link.Fresh peerId) : link.Carries peerId 0 ∅ := by
  obtain ⟨sending, receiving, hsending, hreceiving, hkey, hseq, hlast, hwindow⟩ := h
  refine ⟨sending, receiving, hsending, hreceiving, hkey, hseq, ?_⟩
  have hfresh : receiving.window = ReplayWindow.fresh := by
    simp [SessionState.window, ReplayWindow.fresh, hlast, hwindow]
  rw [hfresh]
  exact ReplayWindow.fresh_records

end Link

theorem SessionManager.encryptMessage_of_sendable {P : Primitives H} {cfg : SessionConfig}
    (hbucket : isSupportedSessionPaddingBucket cfg.paddingBucketSize = true) {mgr : SessionManager H}
    {peerId : NodeId} {session : SessionState} (hfind : mgr.findSessionLocked peerId = some session)
    {message : Outgoing} (hmessage : message.Sendable) :
    ∃ padding,
      SESSION_LENGTH_PREFIX_SIZE + message.payload.length + padding.length
        = sessionPaddedPlaintextSize message.payload.length cfg.paddingBucketSize ∧
      mgr.encryptMessage P cfg peerId message.packetType message.payload message.flags message.entropy
        = ({ mgr with sessions := mgr.sessions.insert peerId { session with sendSeq := session.sendSeq + 1 } },
            sealFrame P session message.packetType message.flags
              (protectPayload cfg.paddingBucketSize message.payload padding)) := by
  obtain ⟨hroom, -, hfits⟩ := sessionPaddedPlaintextSize_bounds hbucket hmessage.size
  have hsize : ¬SESSION_MAX_LOGICAL_PAYLOAD_SIZE < message.payload.length := not_lt.mpr hmessage.size
  have hword : ¬2 ^ 32 - 1 < message.payload.length :=
    not_lt.mpr (hmessage.size.trans (by decide))
  generalize hpadded : sessionPaddedPlaintextSize message.payload.length cfg.paddingBucketSize = padded at *
  obtain ⟨padding, hdraw, hlength⟩ := drawPadding_isSome hmessage.entropy
    (padded - (SESSION_LENGTH_PREFIX_SIZE + message.payload.length))
  refine ⟨padding, by omega, ?_⟩
  unfold encryptMessage
  simp only [hpadded, hbucket, hsize, hword, not_lt.mpr hfits, hfind, hdraw, Bool.not_true,
    Bool.false_eq_true, or_self, if_false]

theorem SessionManager.encryptMessage_opens {P : Primitives H} (hP : P.aead.Correct) {cfg : SessionConfig}
    (hbucket : isSupportedSessionPaddingBucket cfg.paddingBucketSize = true) {mgr : SessionManager H}
    {peerId : NodeId} {session : SessionState} (hfind : mgr.findSessionLocked peerId = some session)
    {message : Outgoing} (hmessage : message.Sendable) :
    ∃ protectedPayload frame header,
      mgr.encryptMessage P cfg peerId message.packetType message.payload message.flags message.entropy
        = ({ mgr with sessions := mgr.sessions.insert peerId { session with sendSeq := session.sendSeq + 1 } },
            some frame) ∧
      protectedPayload.length = sessionPaddedPlaintextSize message.payload.length cfg.paddingBucketSize ∧
      sealFrame P session message.packetType message.flags protectedPayload = some frame ∧
      parseFrame frame = some header ∧ header.packetType = message.packetType ∧ header.sessionId = session.id ∧
      header.sequenceNumber = session.sendSeq.toUInt32 ∧
      openFrame P session.sendKey header.payloadLength.toNat frame = some protectedPayload ∧
      unprotectPayload protectedPayload = some message.payload := by
  obtain ⟨padding, hpadding, hencrypt⟩ := encryptMessage_of_sendable (P := P) hbucket hfind hmessage
  obtain ⟨-, hmin, hmax⟩ := sessionPaddedPlaintextSize_bounds hbucket hmessage.size
  have hlength : (protectPayload cfg.paddingBucketSize message.payload padding).length
      = sessionPaddedPlaintextSize message.payload.length cfg.paddingBucketSize := by
    rw [length_protectPayload, ← hpadding]
    rfl
  obtain ⟨frame, hseal, hparse, hopen⟩ := sealFrame_opens hP session message.packetType hmessage.flags
    (hlength ▸ hmin) (hlength ▸ hmax)
  rw [hseal] at hencrypt
  refine ⟨_, frame, _, hencrypt, hlength, hseal, hparse, rfl, rfl, rfl, ?_,
    unprotectPayload_protect hbucket hmessage.size hpadding⟩
  rw [toNat_payloadLength_frameHeader session message.packetType message.flags (hlength ▸ hmax)]
  exact hopen

namespace Link

variable {P : Primitives H} {cfg : SessionConfig} {peerId : NodeId}

/-- One message: it is delivered and its number recorded if the window takes the low half of the counter,
and lost without a trace otherwise. -/
theorem Carries.send (hP : P.aead.Correct)
    (hbucket : isSupportedSessionPaddingBucket cfg.paddingBucketSize = true) {link : Link H} {count : Nat}
    {seen : Set Nat} (h : link.Carries peerId count seen) {message : Outgoing} (hmessage : message.Sendable) :
    (count % 2 ^ 32 ∈ seen →
      (link.send P cfg peerId message).2 = none ∧
        (link.send P cfg peerId message).1.Carries peerId (count + 1) seen) ∧
    ((∀ seq ∈ seen, seq < count % 2 ^ 32) →
      (link.send P cfg peerId message).2 = some ⟨message.packetType, message.payload⟩ ∧
        (link.send P cfg peerId message).1.Carries peerId (count + 1) (insert (count % 2 ^ 32) seen)) := by
  obtain ⟨sending, receiving, hsending, hreceiving, hkey, hseq, hwindow⟩ := h
  obtain ⟨protectedPayload, frame, header, hencrypt, -, -, hparse, htype, hid, hnumber, hopen, hunprotect⟩ :=
    SessionManager.encryptMessage_opens hP hbucket hsending hmessage
  rw [← hid] at hreceiving
  have hestablished : sending.established = true := (Option.filter_eq_some_iff.mp hsending).2
  -- the sender's end after the call
  have hnext : (SessionManager.findSessionLocked { link.sender with
      sessions := link.sender.sessions.insert peerId { sending with sendSeq := sending.sendSeq + 1 } } peerId)
      = some { sending with sendSeq := sending.sendSeq + 1 } := by
    simp [SessionManager.findSessionLocked, hestablished]
  have hcount : sending.sendSeq + 1 = UInt64.ofNat (count + 1) := by
    rw [hseq, UInt64.ofNat_add]
    rfl
  -- the number on the wire
  have hwire : sending.sendSeq.toUInt32.toUInt64.toNat = count % 2 ^ 32 := by
    rw [hseq]
    simp only [UInt32.toNat_toUInt64, UInt64.toNat_toUInt32, UInt64.toNat_ofNat']
    omega
  have hcheck : receiving.checkReplay header.sequenceNumber.toUInt64
      = receiving.window.check (count % 2 ^ 32) := by
    rw [hnumber, SessionState.checkReplay_eq _ (by rw [hwire]; omega), hwire]
  constructor
  · intro hmem
    have hdecrypt : link.receiver.decryptMessage P frame = (link.receiver, none) :=
      SessionManager.decryptMessage_of_replay hparse hreceiving (hcheck.trans (hwindow.check_of_mem hmem))
    simp only [Link.send, hencrypt, hdecrypt]
    exact ⟨trivial, _, receiving, hnext, hid ▸ hreceiving, hkey, hcount, hwindow⟩
  · intro hnew
    have haccept : receiving.window.check (count % 2 ^ 32) = true := by
      refine hwindow.check_of_not_mem (fun hmem => (hnew _ hmem).false) ?_
      rcases hwindow.last_mem with hzero | hlast
      · omega
      · have := hnew _ hlast
        omega
    have hdecrypt : link.receiver.decryptMessage P frame
        = (link.receiver.storeSessionById header.sessionId
            (receiving.updateReplay header.sequenceNumber.toUInt64),
          some ⟨message.packetType, message.payload⟩) := by
      rw [SessionManager.decryptMessage_of_open hparse hreceiving (hcheck.trans haccept) (by rw [hkey]; exact hopen),
        hunprotect, htype]
      rfl
    simp only [Link.send, hencrypt, hdecrypt]
    refine ⟨trivial, _, receiving.updateReplay header.sequenceNumber.toUInt64, hnext, ?_, ?_, hcount, ?_⟩
    · rw [← hid]
      exact SessionManager.findSessionByIdLocked_store hreceiving
        (by simpa using SessionManager.findSessionByIdLocked_established hreceiving)
    · simpa using hkey
    · rw [SessionState.window_updateReplay, hnumber, hwire]
      exact hwindow.update _

theorem Fresh.after_carries (hP : P.aead.Correct)
    (hbucket : isSupportedSessionPaddingBucket cfg.paddingBucketSize = true) {link : Link H}
    (hfresh : link.Fresh peerId) {messages : Nat → Outgoing} {n : Nat} (hmessages : ∀ k < n, (messages k).Sendable) :
    (link.after P cfg peerId messages n).Carries peerId n {seq | seq < min n (2 ^ 32)} := by
  induction n with
  | zero =>
    have hseen : {seq | seq < min 0 (2 ^ 32)} = (∅ : Set Nat) := by
      ext seq
      simp
    rw [hseen]
    exact hfresh.carries
  | succ n ih =>
    have hbefore := ih fun k hk => hmessages k (by omega)
    have hstep := hbefore.send hP hbucket (hmessages n (by omega))
    by_cases hn : n < 2 ^ 32
    · have hseen : {seq | seq < min (n + 1) (2 ^ 32)} = insert (n % 2 ^ 32) {seq | seq < min n (2 ^ 32)} := by
        ext seq
        simp only [Set.mem_ofPred_eq, Set.mem_insert_iff]
        omega
      rw [hseen]
      exact (hstep.2 fun seq hseq => by simp only [Set.mem_ofPred_eq] at hseq; omega).2
    · have hseen : {seq | seq < min (n + 1) (2 ^ 32)} = {seq | seq < min n (2 ^ 32)} := by
        ext seq
        simp only [Set.mem_ofPred_eq]
        omega
      rw [hseen]
      exact (hstep.1 (by simp only [Set.mem_ofPred_eq]; omega)).2

theorem Fresh.delivered_eq (P : Primitives H) (hP : P.aead.Correct) (cfg : SessionConfig)
    (hbucket : isSupportedSessionPaddingBucket cfg.paddingBucketSize = true) {link : Link H}
    (hfresh : link.Fresh peerId) {messages : Nat → Outgoing} {n : Nat} (hmessages : ∀ k ≤ n, (messages k).Sendable) :
    link.delivered P cfg peerId messages n
      = if n < 2 ^ 32 then some ⟨(messages n).packetType, (messages n).payload⟩ else none := by
  have hstep := (hfresh.after_carries hP hbucket fun k hk => hmessages k hk.le).send hP hbucket
    (hmessages n le_rfl)
  unfold Link.delivered
  split_ifs with hn
  · exact (hstep.2 fun seq hseq => by simp only [Set.mem_ofPred_eq] at hseq; omega).1
  · exact (hstep.1 (by simp only [Set.mem_ofPred_eq]; omega)).1

/-- Frames delivered in order are accepted with their type and payload as long as the send counter fits
the 32 bits on the wire, and no longer. -/
theorem inOrder_delivered_iff (P : Primitives H) (hP : P.aead.Correct) (cfg : SessionConfig)
    (hbucket : isSupportedSessionPaddingBucket cfg.paddingBucketSize = true) {link : Link H}
    (hfresh : link.Fresh peerId) (messages : Nat → Outgoing) (n : Nat)
    (hmessages : ∀ k ≤ n, (messages k).Sendable) :
    link.delivered P cfg peerId messages n = some ⟨(messages n).packetType, (messages n).payload⟩ ↔
      n < 2 ^ 32 := by
  rw [hfresh.delivered_eq P hP cfg hbucket hmessages]
  simp

/-- Two managers that hold the ends of session 7. -/
def sampleLink : Link ClearHandshake where
  sender := ({} : SessionManager ClearHandshake).establish (.sample 1) 0 (FixedBytes.copy 32 [2]) 7
    ⟨FixedBytes.copy 32 [3], FixedBytes.copy 32 [4]⟩ true
  receiver := ({} : SessionManager ClearHandshake).establish (.sample 1) 0 (FixedBytes.copy 32 [1]) 7
    ⟨FixedBytes.copy 32 [4], FixedBytes.copy 32 [3]⟩ false

def sampleMessage : Outgoing := ⟨0x02, 0, [0x68, 0x69], some fun _ => 0⟩

theorem sampleLink_fresh : sampleLink.Fresh (FixedBytes.copy 32 [2]) :=
  ⟨_, _, rfl, rfl, rfl, rfl, rfl, rfl⟩

theorem sampleMessage_sendable : sampleMessage.Sendable where
  size := by decide
  flags := by decide
  entropy := rfl

theorem inOrder_delivered_last :
    sampleLink.delivered clearPrimitives (.sample 1) (FixedBytes.copy 32 [2]) (fun _ => sampleMessage)
      (2 ^ 32 - 1) = some ⟨0x02, [0x68, 0x69]⟩ :=
  (inOrder_delivered_iff clearPrimitives clearAead_correct (.sample 1) rfl
    sampleLink_fresh (fun _ => sampleMessage) (2 ^ 32 - 1) fun _ _ => sampleMessage_sendable).mpr (by decide)

/-- The message with counter `2 ^ 32` reuses wire number 0 and is dropped as a replay. -/
theorem inOrder_dropped_at_wrap :
    sampleLink.delivered clearPrimitives (.sample 1) (FixedBytes.copy 32 [2]) (fun _ => sampleMessage)
      (2 ^ 32) = none := by
  rw [sampleLink_fresh.delivered_eq clearPrimitives clearAead_correct (.sample 1) rfl
    fun _ _ => sampleMessage_sendable]
  simp

end Link

end Aegis
