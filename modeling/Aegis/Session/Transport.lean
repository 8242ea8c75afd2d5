import Aegis.Lib.ReplayWindow
import Aegis.Packet.Header
import Aegis.Session.Manager

/-!
# Session transport

`encrypt_message` and `decrypt_message` of `session/session.cpp`, with the replay window of a session. The
window is `ReplayWindow 2048` in 64-bit arithmetic (`checkReplay_eq`, `window_updateReplay`). The send
counter has 64 bits, the sequence number on the wire the low 32 of them; the nonce holds the session id and
the whole counter, in the byte order a little-endian host gives it, and the receiver reads the nonce from
the wire.
-/

namespace Aegis

def CHACHA20_POLY1305_NONCE_SIZE : Nat := 12
def CHACHA20_POLY1305_TAG_SIZE : Nat := 16

/-! ### The replay window -/

def REPLAY_BITS : UInt64 := 2048

namespace SessionState

def checkReplay (session : SessionState) (seq : UInt64) : Bool :=
  if REPLAY_BITS ≤ session.recvLast ∧ seq ≤ session.recvLast - REPLAY_BITS then false
  else if session.recvLast < seq then true
  else if seq + REPLAY_BITS ≤ session.recvLast then false
  else !session.recvWindow.getLsbD (session.recvLast - seq).toNat

def updateReplay (session : SessionState) (seq : UInt64) : SessionState :=
  let session :=
    if session.recvLast < seq then
      let shift := seq - session.recvLast
      { session with
        recvWindow := if shift < REPLAY_BITS then session.recvWindow <<< shift.toNat else 0#2048
        recvLast := seq }
    else session
  { session with
    recvWindow := session.recvWindow ||| 1#2048 <<< (session.recvLast - seq).toNat }

def window (session : SessionState) : ReplayWindow 2048 := ⟨session.recvLast.toNat, session.recvWindow⟩

section

variable (session : SessionState)
include session

theorem checkReplay_eq {seq : UInt64} (hroom : seq.toNat + 2048 < 2 ^ 64) :
    session.checkReplay seq = session.window.check seq.toNat := by
  have hbits : REPLAY_BITS.toNat = 2048 := rfl
  have hsum : (seq + REPLAY_BITS).toNat = seq.toNat + 2048 := by
    rw [UInt64.toNat_add, hbits, Nat.mod_eq_of_lt hroom]
  simp only [checkReplay, ReplayWindow.check, window, UInt64.le_iff_toNat_le, UInt64.lt_iff_toNat_lt, hsum,
    hbits]
  by_cases hfull : 2048 ≤ session.recvLast.toNat
  · have hsub : (session.recvLast - REPLAY_BITS).toNat = session.recvLast.toNat - 2048 :=
      UInt64.toNat_sub_of_le _ _ (by rwa [UInt64.le_iff_toNat_le])
    by_cases hnew : session.recvLast.toNat < seq.toNat
    · have : ¬seq.toNat ≤ session.recvLast.toNat - 2048 := by omega
      simp [hsub, hnew, this]
    · have hdiff : (session.recvLast - seq).toNat = session.recvLast.toNat - seq.toNat :=
        UInt64.toNat_sub_of_le _ _ (by rw [UInt64.le_iff_toNat_le]; omega)
      by_cases hin : session.recvLast.toNat < seq.toNat + 2048
      · have h1 : ¬seq.toNat ≤ session.recvLast.toNat - 2048 := by omega
        have h2 : ¬seq.toNat + 2048 ≤ session.recvLast.toNat := by omega
        simp [hsub, hnew, hdiff, hin, h1, h2]
      · have h1 : seq.toNat ≤ session.recvLast.toNat - 2048 := by omega
        simp [hsub, hnew, hfull, hin, h1]
  · by_cases hnew : session.recvLast.toNat < seq.toNat
    · simp [hfull, hnew]
    · have hdiff : (session.recvLast - seq).toNat = session.recvLast.toNat - seq.toNat :=
        UInt64.toNat_sub_of_le _ _ (by rw [UInt64.le_iff_toNat_le]; omega)
      have hin : session.recvLast.toNat < seq.toNat + 2048 := by omega
      have h2 : ¬seq.toNat + 2048 ≤ session.recvLast.toNat := by omega
      simp [hfull, hnew, hdiff, hin, h2]

theorem window_updateReplay (seq : UInt64) : (session.updateReplay seq).window = session.window.update seq.toNat := by
  by_cases hnew : session.recvLast < seq
  · have hlt : session.recvLast.toNat < seq.toNat := by rwa [UInt64.lt_iff_toNat_lt] at hnew
    have hdiff : (seq - session.recvLast).toNat = seq.toNat - session.recvLast.toNat :=
      UInt64.toNat_sub_of_le _ _ (by rw [UInt64.le_iff_toNat_le]; omega)
    have hshift : (if seq - session.recvLast < REPLAY_BITS then
          session.recvWindow <<< (seq - session.recvLast).toNat else 0#2048)
        = session.recvWindow <<< (seq.toNat - session.recvLast.toNat) := by
      split_ifs with hsmall
      · rw [hdiff]
      · rw [UInt64.lt_iff_toNat_lt, hdiff, show REPLAY_BITS.toNat = 2048 by rfl] at hsmall
        exact (BitVec.shiftLeft_eq_zero (by omega)).symm
    simp only [updateReplay, ReplayWindow.update, window, hnew, hlt, hshift, if_true]
    simp
  · have hnlt : ¬session.recvLast.toNat < seq.toNat := by rwa [UInt64.lt_iff_toNat_lt] at hnew
    have hdiff : (session.recvLast - seq).toNat = session.recvLast.toNat - seq.toNat :=
      UInt64.toNat_sub_of_le _ _ (by rw [UInt64.le_iff_toNat_le]; omega)
    simp [updateReplay, ReplayWindow.update, window, hnew, hnlt, hdiff]

@[simp] theorem updateReplay_id (seq : UInt64) : (session.updateReplay seq).id = session.id := by
  unfold updateReplay; split_ifs <;> rfl

@[simp] theorem updateReplay_recvKey (seq : UInt64) : (session.updateReplay seq).recvKey = session.recvKey := by
  unfold updateReplay; split_ifs <;> rfl

@[simp] theorem updateReplay_peerId (seq : UInt64) : (session.updateReplay seq).peerId = session.peerId := by
  unfold updateReplay; split_ifs <;> rfl

@[simp] theorem updateReplay_established (seq : UInt64) :
    (session.updateReplay seq).established = session.established := by
  unfold updateReplay; split_ifs <;> rfl

end

end SessionState

/-! ### Sealing -/

/-- Four bytes in the order a little-endian host stores them. -/
def leBytes4 (value : Nat) : List UInt8 := (beBytes 4 value).reverse

/-- The nonce of a frame: session id in network order, then the halves of the counter as stored. -/
def frameNonce (sessionId : UInt32) (sendSeq : UInt64) : ChaCha20Poly1305Nonce :=
  ⟨beBytes 4 sessionId.toNat ++ leBytes4 (sendSeq.toNat / 2 ^ 32) ++ leBytes4 (sendSeq.toNat % 2 ^ 32), by
    simp [leBytes4]⟩

/-- The protected payload: lengths of payload and bucket, the payload, then padding. -/
def protectPayload (bucketSize : Nat) (plaintext padding : List UInt8) : List UInt8 :=
  beBytes 2 plaintext.length ++ beBytes 2 bucketSize ++ plaintext ++ padding

/-- The header of the frame a session seals next. -/
def SessionState.frameHeader (session : SessionState) (packetType flags : UInt8) (payloadSize : Nat) :
    PacketHeader where
  version := PACKET_VERSION
  packetType := packetType
  flags := flags
  reserved := 0
  sessionId := session.id
  sequenceNumber := session.sendSeq.toUInt32
  payloadLength := UInt32.ofNat payloadSize

/-- The frame a session seals next: header, nonce, ciphertext and tag. -/
def sealFrame {H : Type} (P : Primitives H) (session : SessionState) (packetType flags : UInt8)
    (protectedPayload : List UInt8) : Option (List UInt8) := do
  let header := serializePacketHeader (session.frameHeader packetType flags protectedPayload.length)
  let nonce := frameNonce session.id session.sendSeq
  let (ciphertext, tag) ← P.aead.encrypt session.sendKey nonce protectedPayload header
  some (header ++ nonce.1 ++ ciphertext ++ tag.1)

/-- The padding of a frame; a frame without padding draws nothing from the random source. -/
def drawPadding (entropy : Entropy) (paddingSize : Nat) : Option (List UInt8) :=
  if paddingSize = 0 then some [] else entropy.fill paddingSize

/-- `encrypt_message`. A failing seal has used up its counter value; a failing random source has not. -/
def SessionManager.encryptMessage {H : Type} (P : Primitives H) (cfg : SessionConfig)
    (mgr : SessionManager H) (peerId : NodeId) (packetType : UInt8) (plaintext : List UInt8)
    (flags : UInt8) (entropy : Entropy) : SessionManager H × Option (List UInt8) :=
  let paddedSize := sessionPaddedPlaintextSize plaintext.length cfg.paddingBucketSize
  if !isSupportedSessionPaddingBucket cfg.paddingBucketSize ∨
      SESSION_MAX_LOGICAL_PAYLOAD_SIZE < plaintext.length ∨ 2 ^ 32 - 1 < plaintext.length then
    (mgr, none)
  else if SESSION_MAX_PAYLOAD_SIZE < paddedSize then (mgr, none)
  else
    match mgr.findSessionLocked peerId with
    | none => (mgr, none)
    | some session =>
      let paddingSize := paddedSize - (SESSION_LENGTH_PREFIX_SIZE + plaintext.length)
      match drawPadding entropy paddingSize with
      | none => (mgr, none)
      | some padding =>
        let next := { session with sendSeq := session.sendSeq + 1 }
        ({ mgr with sessions := mgr.sessions.insert peerId next },
          sealFrame P session packetType flags (protectPayload cfg.paddingBucketSize plaintext padding))

theorem drawPadding_isSome {entropy : Entropy} (h : entropy.isSome) (paddingSize : Nat) :
    ∃ padding, drawPadding entropy paddingSize = some padding ∧ padding.length = paddingSize := by
  obtain ⟨byte, rfl⟩ := Option.isSome_iff_exists.mp h
  unfold drawPadding
  split_ifs with hzero
  · exact ⟨[], rfl, hzero.symm⟩
  · obtain ⟨padding, hsome⟩ : ∃ padding, Entropy.fill (some byte) paddingSize = some padding := ⟨_, rfl⟩
    exact ⟨padding, hsome, Entropy.length_fill hsome⟩

/-- The session whose key and counter a call of `encrypt_message` hands to the cipher, if it comes to that. -/
def SessionManager.sealingSession {H : Type} (cfg : SessionConfig) (mgr : SessionManager H) (peerId : NodeId)
    (plaintext : List UInt8) (entropy : Entropy) : Option SessionState :=
  let paddedSize := sessionPaddedPlaintextSize plaintext.length cfg.paddingBucketSize
  if !isSupportedSessionPaddingBucket cfg.paddingBucketSize ∨
      SESSION_MAX_LOGICAL_PAYLOAD_SIZE < plaintext.length ∨ 2 ^ 32 - 1 < plaintext.length then none
  else if SESSION_MAX_PAYLOAD_SIZE < paddedSize then none
  else
    (mgr.findSessionLocked peerId).filter fun _ =>
      (drawPadding entropy (paddedSize - (SESSION_LENGTH_PREFIX_SIZE + plaintext.length))).isSome

/-- Without such a session nothing happens; with it, the frame is sealed with its key, id and counter, and
the counter goes up. -/
theorem SessionManager.encryptMessage_cases {H : Type} (P : Primitives H) (cfg : SessionConfig)
    (mgr : SessionManager H) (peerId : NodeId) (packetType : UInt8) (plaintext : List UInt8)
    (flags : UInt8) (entropy : Entropy) :
    (mgr.sealingSession cfg peerId plaintext entropy = none ∧
      mgr.encryptMessage P cfg peerId packetType plaintext flags entropy = (mgr, none)) ∨
    ∃ session payload, mgr.sealingSession cfg peerId plaintext entropy = some session ∧
      mgr.findSessionLocked peerId = some session ∧
      mgr.encryptMessage P cfg peerId packetType plaintext flags entropy
        = ({ mgr with
              sessions := mgr.sessions.insert peerId { session with sendSeq := session.sendSeq + 1 } },
            sealFrame P session packetType flags payload) := by
  unfold encryptMessage sealingSession
  simp only
  split_ifs with hinput hlarge
  · exact Or.inl ⟨rfl, rfl⟩
  · exact Or.inl ⟨rfl, rfl⟩
  · cases hfind : mgr.findSessionLocked peerId with
    | none => exact Or.inl ⟨rfl, rfl⟩
    | some session =>
      cases hpadding : drawPadding entropy (sessionPaddedPlaintextSize plaintext.length cfg.paddingBucketSize -
          (SESSION_LENGTH_PREFIX_SIZE + plaintext.length)) with
      | none => exact Or.inl ⟨rfl, rfl⟩
      | some padding => exact Or.inr ⟨session, _, rfl, rfl, rfl⟩

theorem SessionManager.findSessionLocked_encryptMessage {H : Type} (P : Primitives H) (cfg : SessionConfig)
    (mgr : SessionManager H) (peerId : NodeId) (packetType : UInt8) (plaintext : List UInt8)
    (flags : UInt8) (entropy : Entropy) (p : NodeId) :
    ((mgr.encryptMessage P cfg peerId packetType plaintext flags entropy).1.findSessionLocked p).isSome
      = (mgr.findSessionLocked p).isSome := by
  rcases encryptMessage_cases P cfg mgr peerId packetType plaintext flags entropy with
    ⟨-, hrefused⟩ | ⟨session, payload, -, hsession, hsealed⟩
  · rw [hrefused]
  · rw [hsealed, findSessionLocked, SortedMap.find?_insert]
    split_ifs with hp
    · have hestablished := (Option.filter_eq_some_iff.mp hsession).2
      rw [hp, hsession, Option.filter_some, if_pos hestablished]
      rfl
    · rfl

/-! ### Opening -/

structure DecryptedMessage where
  packetType : UInt8
  payload : List UInt8
deriving DecidableEq

/-- The checks `decrypt_message` makes before it takes the lock. -/
def parseFrame (data : List UInt8) : Option PacketHeader := do
  if data.length < 16 + 12 + SESSION_PADDING_BUCKET_MIN + CHACHA20_POLY1305_TAG_SIZE then none
  else
    let header ← parsePacketHeader (data.take PACKET_HEADER_SIZE)
    if header.version ≠ PACKET_VERSION ∨ header.reserved ≠ 0 ∨ header.flags &&& ~~~PACKET_KNOWN_FLAGS ≠ 0 then
      none
    else if header.payloadLength.toNat < SESSION_PADDING_BUCKET_MIN ∨
        SESSION_MAX_PAYLOAD_SIZE < header.payloadLength.toNat then none
    else if 16 + 12 + header.payloadLength.toNat + 16 ≠ data.length then none
    else some header

theorem parsePacketHeader_of_parseFrame {data : List UInt8} {header : PacketHeader}
    (h : parseFrame data = some header) : parsePacketHeader (data.take PACKET_HEADER_SIZE) = some header := by
  unfold parseFrame at h
  split_ifs at h
  obtain ⟨header', hheader, h⟩ := Option.bind_eq_some_iff.mp h
  split_ifs at h
  rwa [← Option.some.inj h]

/-- Open the box of a frame whose payload has `size` bytes. -/
def openFrame {H : Type} (P : Primitives H) (key : ChaCha20Poly1305Key) (size : Nat) (data : List UInt8) :
    Option (List UInt8) :=
  let nonce := FixedBytes.copy 12 ((data.drop 16).take 12)
  let ciphertext := (data.drop 28).take size
  let tag := FixedBytes.copy 16 ((data.drop (28 + size)).take 16)
  P.aead.decrypt key nonce ciphertext tag (data.take 16)

/-- The payload inside a protected payload; lengths that do not fit are refused. -/
def unprotectPayload (protectedPayload : List UInt8) : Option (List UInt8) := do
  let (logicalLength, reader) ← (WireReader.mk protectedPayload).readU16
  let (bucketSize, reader) ← reader.readU16
  if !isSupportedSessionPaddingBucket bucketSize.toNat ∨
      SESSION_MAX_LOGICAL_PAYLOAD_SIZE < logicalLength.toNat ∨
      sessionPaddedPlaintextSize logicalLength.toNat bucketSize.toNat ≠ protectedPayload.length then none
  else
    let (logicalPayload, reader) ← reader.readBytes logicalLength.toNat
    let (_, reader) ← reader.readBytes reader.remaining
    if reader.finished then some logicalPayload else none

namespace SessionManager

variable {H : Type}

/-- Write back the session `findSessionByIdLocked` found. -/
def storeSessionById (mgr : SessionManager H) (sessionId : UInt32) (session : SessionState) :
    SessionManager H :=
  match mgr.sessionToPeer.find? sessionId with
  | some peerId => { mgr with sessions := mgr.sessions.insert peerId session }
  | none =>
    match mgr.retired.find? sessionId with
    | some retired => { mgr with retired := mgr.retired.insert sessionId { retired with session := session } }
    | none => mgr

def decryptMessage (P : Primitives H) (mgr : SessionManager H) (data : List UInt8) :
    SessionManager H × Option DecryptedMessage :=
  match parseFrame data with
  | none => (mgr, none)
  | some header =>
    match mgr.findSessionByIdLocked header.sessionId with
    | none => (mgr, none)
    | some session =>
      let wireSeq := header.sequenceNumber.toUInt64
      if !session.checkReplay wireSeq then (mgr, none)
      else
        match openFrame P session.recvKey header.payloadLength.toNat data with
        | none => (mgr, none)
        | some protectedPayload =>
          (mgr.storeSessionById header.sessionId (session.updateReplay wireSeq),
            (unprotectPayload protectedPayload).map fun payload => ⟨header.packetType, payload⟩)

variable {P : Primitives H} {mgr : SessionManager H} {data : List UInt8} {header : PacketHeader}
  {session : SessionState}

@[simp] theorem handshakeReplays_storeSessionById (sessionId : UInt32) (session : SessionState) :
    (mgr.storeSessionById sessionId session).handshakeReplays = mgr.handshakeReplays := by
  unfold storeSessionById
  cases mgr.sessionToPeer.find? sessionId with
  | some peerId => rfl
  | none => cases mgr.retired.find? sessionId <;> rfl

theorem decryptMessage_of_replay (hparse : parseFrame data = some header)
    (hfind : mgr.findSessionByIdLocked header.sessionId = some session)
    (hcheck : session.checkReplay header.sequenceNumber.toUInt64 = false) :
    mgr.decryptMessage P data = (mgr, none) := by
  simp only [decryptMessage, hparse, hfind, hcheck, Bool.not_false, if_true]

theorem decryptMessage_of_open (hparse : parseFrame data = some header)
    (hfind : mgr.findSessionByIdLocked header.sessionId = some session)
    (hcheck : session.checkReplay header.sequenceNumber.toUInt64 = true) {protectedPayload : List UInt8}
    (hopen : openFrame P session.recvKey header.payloadLength.toNat data = some protectedPayload) :
    mgr.decryptMessage P data
      = (mgr.storeSessionById header.sessionId (session.updateReplay header.sequenceNumber.toUInt64),
          (unprotectPayload protectedPayload).map fun payload => ⟨header.packetType, payload⟩) := by
  simp only [decryptMessage, hparse, hfind, hcheck, hopen, Bool.not_true, Bool.false_eq_true, if_false]

theorem decryptMessage_cases (P : Primitives H) (mgr : SessionManager H) (data : List UInt8) :
    mgr.decryptMessage P data = (mgr, none) ∨
      ∃ header session, parseFrame data = some header ∧
        mgr.findSessionByIdLocked header.sessionId = some session ∧
        session.checkReplay header.sequenceNumber.toUInt64 = true ∧
        (openFrame P session.recvKey header.payloadLength.toNat data).isSome ∧
        (mgr.decryptMessage P data).1
          = mgr.storeSessionById header.sessionId (session.updateReplay header.sequenceNumber.toUInt64) := by
  cases hparse : parseFrame data with
  | none => exact Or.inl (by simp only [decryptMessage, hparse])
  | some header =>
    cases hfind : mgr.findSessionByIdLocked header.sessionId with
    | none => exact Or.inl (by simp only [decryptMessage, hparse, hfind])
    | some session =>
      cases hcheck : session.checkReplay header.sequenceNumber.toUInt64 with
      | false => exact Or.inl (decryptMessage_of_replay hparse hfind hcheck)
      | true =>
        cases hopen : openFrame P session.recvKey header.payloadLength.toNat data with
        | none =>
          left
          simp only [decryptMessage, hparse, hfind, hcheck, hopen, Bool.not_true, Bool.false_eq_true, if_false]
        | some protectedPayload =>
          refine Or.inr ⟨header, session, rfl, hfind, hcheck, by rw [hopen]; rfl, ?_⟩
          rw [decryptMessage_of_open hparse hfind hcheck hopen]

end SessionManager

variable {H : Type}

theorem SessionManager.findSessionByIdLocked_store {mgr : SessionManager H} {sessionId : UInt32}
    {session session' : SessionState} (hfind : mgr.findSessionByIdLocked sessionId = some session)
    (hestablished : session'.established = true) :
    (mgr.storeSessionById sessionId session').findSessionByIdLocked sessionId = some session' := by
  unfold findSessionByIdLocked storeSessionById at *
  cases hactive : mgr.sessionToPeer.find? sessionId with
  | some peerId => simp [findSessionLocked, hactive, hestablished]
  | none =>
    rw [hactive] at hfind
    cases hretired : mgr.retired.find? sessionId with
    | none => simp [hretired] at hfind
    | some retired => simp [hactive, hestablished]

theorem SessionManager.findSessionByIdLocked_established {mgr : SessionManager H} {sessionId : UInt32}
    {session : SessionState} (hfind : mgr.findSessionByIdLocked sessionId = some session) :
    session.established = true := by
  unfold findSessionByIdLocked findSessionLocked at hfind
  cases hactive : mgr.sessionToPeer.find? sessionId with
  | some peerId =>
    rw [hactive] at hfind
    exact (Option.filter_eq_some_iff.mp hfind).2
  | none =>
    rw [hactive] at hfind
    exact (Option.filter_eq_some_iff.mp hfind).2

end Aegis
