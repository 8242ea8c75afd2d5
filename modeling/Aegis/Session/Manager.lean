import Aegis.Lib.SortedMap
import Aegis.Session.HandshakeFrame

/-!
# The session manager

`session/session.cpp`: the tables of active, retired and half-open sessions and the operations on them.
Every operation runs under one mutex except `handle_handshake_init`, which takes it three times; its
sections are `initCheck`, `initAdmit` and `initInstall`, and `handleHandshakeInit` is the three of them
with nothing in between. A critical section reads the clock once, as `now`. The random source is an
argument of the operations that draw from it.
-/

namespace Aegis

structure Identity where
  privateKey : X25519PrivateKey
  nodeId : NodeId
  networkId : NetworkId

structure SessionCapacityLimits where
  active : Nat := 256
  retired : Nat := 256
  pending : Nat := 256

/-- What a session manager is constructed with. -/
structure SessionConfig where
  identity : Identity
  capacity : SessionCapacityLimits := {}
  paddingBucketSize : Nat := 64

/-- The default limits, for a node whose keys are `key` followed by zeros. -/
def SessionConfig.sample (key : UInt8) : SessionConfig where
  identity := ⟨FixedBytes.copy 32 [key], FixedBytes.copy 32 [key], FixedBytes.zero 32⟩

structure SessionState where
  id : UInt32 := 0
  sendKey : ChaCha20Poly1305Key := FixedBytes.zero 32
  recvKey : ChaCha20Poly1305Key := FixedBytes.zero 32
  sendSeq : UInt64 := 0
  recvLast : UInt64 := 0
  recvWindow : BitVec 2048 := 0
  peerId : NodeId := FixedBytes.zero 32
  established : Bool := false
  initiatedLocally : Bool := false
  establishedAt : Time := 0
deriving DecidableEq

structure RetiredSession where
  session : SessionState
  expires : Time
deriving DecidableEq

structure PendingInitiator (H : Type) where
  expectedPeerId : NodeId
  expectedPeerStatic : X25519Key
  handshake : H
  expires : Time
deriving DecidableEq

/-- The tables and the adjustable lifetimes, in milliseconds. -/
structure SessionManager (H : Type) where
  sessions : SortedMap NodeId SessionState := ∅
  sessionToPeer : SortedMap UInt32 NodeId := ∅
  retired : SortedMap UInt32 RetiredSession := ∅
  pendingInitiators : SortedMap UInt32 (PendingInitiator H) := ∅
  handshakeReplays : SortedMap CryptoHash Time := ∅
  retiredGrace : Time := 10000
  handshakeTimeout : Time := 15000
  handshakeReplayTtl : Time := 120000
deriving DecidableEq

structure HandshakeResponse where
  message : List UInt8
  peerId : NodeId
  peerStaticPublicKey : X25519Key
deriving DecidableEq

/-- A session as `create_session` and `install_noise_keys` leave it. -/
def SessionState.fresh (peerId : NodeId) (sessionId : UInt32) (split : NoiseIkSplitResult)
    (initiatedLocally : Bool) (now : Time) : SessionState where
  id := sessionId
  sendKey := split.sendKey
  recvKey := split.receiveKey
  peerId := peerId
  established := true
  initiatedLocally := initiatedLocally
  establishedAt := now

def SessionState.installNoiseKeys (session : SessionState) (split : NoiseIkSplitResult)
    (initiatedLocally : Bool) (now : Time) : SessionState :=
  { session with
    sendKey := split.sendKey
    recvKey := split.receiveKey
    establishedAt := now
    established := true
    initiatedLocally := initiatedLocally }

namespace SessionManager

variable {H : Type}

/-! ### Purges -/

def purgeRetiredLocked (mgr : SessionManager H) (now : Time) : SessionManager H :=
  { mgr with retired := mgr.retired.filter fun _ r => now < r.expires }

def purgeIncompleteHandshakesLocked (mgr : SessionManager H) (now : Time) : SessionManager H :=
  { mgr with pendingInitiators := mgr.pendingInitiators.filter fun _ p => now < p.expires }

def purgeHandshakeReplaysLocked (mgr : SessionManager H) (now : Time) : SessionManager H :=
  { mgr with handshakeReplays := mgr.handshakeReplays.filter fun _ expires => now < expires }

def setRetiredGrace (mgr : SessionManager H) (grace : Time) : SessionManager H :=
  { mgr with retiredGrace := grace }

def setHandshakeTimeout (mgr : SessionManager H) (now timeout : Time) : SessionManager H :=
  purgeIncompleteHandshakesLocked { mgr with handshakeTimeout := max timeout 0 } now

def setHandshakeReplayTtl (mgr : SessionManager H) (now ttl : Time) : SessionManager H :=
  purgeHandshakeReplaysLocked { mgr with handshakeReplayTtl := max ttl 0 } now

/-! ### Sessions -/

/-- The order that picks the retired session to evict: first to expire, then least id. -/
def retiredBefore (a b : UInt32 × RetiredSession) : Bool :=
  if a.2.expires ≠ b.2.expires then a.2.expires < b.2.expires else a.1 < b.1

/-- Make room for one more retired session, unless its id is there already. -/
def evictRetired (cfg : SessionConfig) (retired : SortedMap UInt32 RetiredSession) (sessionId : UInt32) :
    SortedMap UInt32 RetiredSession :=
  if !retired.contains sessionId && cfg.capacity.retired ≤ retired.size then
    match retired.minElement? retiredBefore with
    | some (victim, _) => retired.erase victim
    | none => retired
  else retired

def retireSessionLocked (cfg : SessionConfig) (mgr : SessionManager H) (session : SessionState)
    (now : Time) : SessionManager H :=
  let mgr := mgr.purgeRetiredLocked now
  if cfg.capacity.retired = 0 then mgr
  else
    { mgr with
      retired := (evictRetired cfg mgr.retired session.id).insert session.id
        ⟨session, now + mgr.retiredGrace⟩ }

/-- The first half of `create_session`: an established session with the peer is retired. -/
def supersedeSession (cfg : SessionConfig) (mgr : SessionManager H) (now : Time) (peerId : NodeId) :
    SessionManager H :=
  match mgr.sessions.find? peerId with
  | some old =>
    if old.established then
      let mgr := mgr.retireSessionLocked cfg old now
      { mgr with sessionToPeer := mgr.sessionToPeer.erase old.id }
    else mgr
  | none => mgr

/-- The new entry keeps what an old one held in the fields not set here. -/
def createSession (cfg : SessionConfig) (mgr : SessionManager H) (now : Time) (peerId : NodeId)
    (sessionId : UInt32) : SessionManager H × SessionState :=
  let mgr := mgr.supersedeSession cfg now peerId
  let session : SessionState :=
    { (mgr.sessions.find? peerId).getD {} with
      peerId := peerId, id := sessionId, sendSeq := 0, recvLast := 0, recvWindow := 0,
      established := false }
  ({ mgr with
      sessions := mgr.sessions.insert peerId session
      sessionToPeer := mgr.sessionToPeer.insert sessionId peerId }, session)

/-- `create_session` followed by `install_noise_keys` on the entry it returns. -/
def establish (cfg : SessionConfig) (mgr : SessionManager H) (now : Time) (peerId : NodeId)
    (sessionId : UInt32) (split : NoiseIkSplitResult) (initiatedLocally : Bool) : SessionManager H :=
  let (mgr, session) := mgr.createSession cfg now peerId sessionId
  { mgr with
    sessions := mgr.sessions.insert peerId (session.installNoiseKeys split initiatedLocally now) }

def findSessionLocked (mgr : SessionManager H) (peerId : NodeId) : Option SessionState :=
  (mgr.sessions.find? peerId).filter (·.established)

def findSessionByIdLocked (mgr : SessionManager H) (sessionId : UInt32) : Option SessionState :=
  match mgr.sessionToPeer.find? sessionId with
  | some peerId => mgr.findSessionLocked peerId
  | none => ((mgr.retired.find? sessionId).map (·.session)).filter (·.established)

def removeSession (mgr : SessionManager H) (peerId : NodeId) : SessionManager H :=
  let mgr :=
    match mgr.sessions.find? peerId with
    | some session =>
      { mgr with
        sessionToPeer := mgr.sessionToPeer.erase session.id
        retired := mgr.retired.erase session.id
        sessions := mgr.sessions.erase peerId }
    | none => mgr
  { mgr with
    retired := mgr.retired.filter fun _ r => r.session.peerId ≠ peerId
    pendingInitiators := mgr.pendingInitiators.filter fun _ p => p.expectedPeerId ≠ peerId }

/-- The id is taken by an active, a retired or a half-open session. -/
def sessionIdInUse (mgr : SessionManager H) (sessionId : UInt32) : Bool :=
  mgr.sessionToPeer.contains sessionId || mgr.retired.contains sessionId ||
    mgr.pendingInitiators.contains sessionId

/-- The two purges the INIT sections start with. -/
def purgeInits (mgr : SessionManager H) (now : Time) : SessionManager H :=
  (mgr.purgeIncompleteHandshakesLocked now).purgeHandshakeReplaysLocked now

/-- Store the transcript of an authenticated INIT. -/
def recordReplay (mgr : SessionManager H) (now : Time) (replayKey : CryptoHash) : SessionManager H :=
  { mgr with handshakeReplays := mgr.handshakeReplays.insert replayKey (now + mgr.handshakeReplayTtl) }

def erasePending (mgr : SessionManager H) (sessionId : UInt32) : SessionManager H :=
  { mgr with pendingInitiators := mgr.pendingInitiators.erase sessionId }

/-- The pending initiation to a peer that `handle_handshake_init` finds. -/
def pendingTo? (mgr : SessionManager H) (peerId : NodeId) : Option (UInt32 × PendingInitiator H) :=
  mgr.pendingInitiators.findIf? fun _ p => p.expectedPeerId = peerId

def dropPendingTo (mgr : SessionManager H) (peerId : NodeId) : SessionManager H :=
  match mgr.pendingTo? peerId with
  | some (sessionId, _) => mgr.erasePending sessionId
  | none => mgr

/-- The active session with the peer was initiated here. -/
def activeLocally (mgr : SessionManager H) (peerId : NodeId) : Bool :=
  (mgr.sessions.find? peerId).any fun s => s.established && s.initiatedLocally

/-- The active session with the peer was initiated there. -/
def activeRemotely (mgr : SessionManager H) (peerId : NodeId) : Bool :=
  (mgr.sessions.find? peerId).any fun s => s.established && !s.initiatedLocally

/-- A session with the peer fits the active table. -/
def hasRoomFor (mgr : SessionManager H) (cfg : SessionConfig) (peerId : NodeId) : Bool :=
  mgr.sessions.contains peerId || mgr.sessions.size < cfg.capacity.active

end SessionManager

/-! ### Initiating -/

/-- `std::all_of(…, value == 0)` on a key. -/
def isZeroKey (key : X25519Key) : Bool := key.1.all (· == 0)

/-- The part of `create_handshake_init` before the lock: the INIT frame and the handshake that waits for
its answer. -/
def writeInit {H : Type} (P : Primitives H) (cfg : SessionConfig) (sessionId : UInt32)
    (expectedPeerId : NodeId) (expectedPeerStatic : X25519Key) (entropy : Entropy) :
    Option (List UInt8 × H) := do
  if sessionId = 0 ∨ isZeroKey expectedPeerStatic ∨ expectedPeerId ≠ P.hashPublicKey expectedPeerStatic then
    none
  else
    let prologue ← makeHandshakeV2Prologue cfg.identity.networkId sessionId
    let handshake ← P.noise.createInitiator cfg.identity.privateKey expectedPeerStatic prologue entropy
    let (written, handshake) ← P.noise.writeMessage handshake
    if hsize : written.length = HANDSHAKE_V2_INIT_NOISE_SIZE then
      let encoded ← serializeHandshakeV2Init ⟨sessionId, cfg.identity.networkId, ⟨written, hsize⟩⟩
      some (encoded, handshake)
    else none

namespace SessionManager

variable {H : Type}

/-- `create_handshake_init`; its critical section is the part after `writeInit`. -/
def createHandshakeInit (P : Primitives H) (cfg : SessionConfig) (mgr : SessionManager H) (now : Time)
    (sessionId : UInt32) (expectedPeerId : NodeId) (expectedPeerStatic : X25519Key) (entropy : Entropy) :
    SessionManager H × Option (List UInt8) :=
  match writeInit P cfg sessionId expectedPeerId expectedPeerStatic entropy with
  | none => (mgr, none)
  | some (encoded, handshake) =>
    let mgr := mgr.purgeIncompleteHandshakesLocked now
    if mgr.sessionIdInUse sessionId then (mgr, none)
    else if cfg.capacity.pending ≤ mgr.pendingInitiators.size then (mgr, none)
    else
      let pending := ⟨expectedPeerId, expectedPeerStatic, handshake, now + mgr.handshakeTimeout⟩
      ({ mgr with pendingInitiators := mgr.pendingInitiators.insert sessionId pending }, some encoded)

end SessionManager

/-! ### Answering an INIT -/

/-- An INIT whose Noise message was read: what the call keeps between its sections. -/
structure VerifiedInit (H : Type) where
  sessionId : UInt32
  replayKey : CryptoHash
  handshake : H
  peerStatic : X25519Key
  peerId : NodeId
deriving DecidableEq

/-- A canonical INIT for this network and dispatch, with its transcript hash. -/
def parseInit {H : Type} (P : Primitives H) (cfg : SessionConfig) (message : List UInt8)
    (outerSessionId : UInt32) : Option (HandshakeV2InitFrame × CryptoHash) := do
  let frame ← parseHandshakeV2Init message
  if frame.sessionId ≠ outerSessionId ∨ frame.networkId ≠ cfg.identity.networkId then none
  else
    let replayKey ← P.transcriptHash message
    some (frame, replayKey)

/-- The unlocked part between the first two sections: read the Noise message, learn who sent it. -/
def readInit {H : Type} (P : Primitives H) (cfg : SessionConfig) (frame : HandshakeV2InitFrame)
    (replayKey : CryptoHash) (entropy : Entropy) : Option (VerifiedInit H) := do
  let prologue ← makeHandshakeV2Prologue cfg.identity.networkId frame.sessionId
  let handshake ← P.noise.createResponder cfg.identity.privateKey prologue entropy
  let handshake ← P.noise.readMessage handshake frame.noiseMessage.1
  let peerStatic ← P.noise.remoteStaticPublicKey handshake
  if isZeroKey peerStatic then none
  else some ⟨frame.sessionId, replayKey, handshake, peerStatic, P.hashPublicKey peerStatic⟩

/-- The unlocked part between the last two sections: the RESP frame and the session keys. -/
def writeResponse {H : Type} (P : Primitives H) (init : VerifiedInit H) :
    Option (List UInt8 × NoiseIkSplitResult) := do
  let (written, handshake) ← P.noise.writeMessage init.handshake
  if hsize : written.length = HANDSHAKE_V2_RESPONSE_NOISE_SIZE then
    let split ← P.noise.split handshake
    let encoded ← serializeHandshakeV2Response ⟨init.sessionId, ⟨written, hsize⟩⟩
    some (encoded, split)
  else none

namespace SessionManager

variable {H : Type}

/-- First section: drop INITs already seen and session ids already in use. -/
def initCheck (P : Primitives H) (cfg : SessionConfig) (mgr : SessionManager H) (now : Time)
    (message : List UInt8) (outerSessionId : UInt32) (entropy : Entropy) :
    SessionManager H × Option (VerifiedInit H) :=
  match parseInit P cfg message outerSessionId with
  | none => (mgr, none)
  | some (frame, replayKey) =>
    let mgr := mgr.purgeInits now
    if mgr.handshakeReplays.contains replayKey then (mgr, none)
    else if mgr.sessionIdInUse frame.sessionId then (mgr, none)
    else (mgr, readInit P cfg frame replayKey entropy)

/-- Second section: record the transcript, settle a collision with an own initiation by node id. -/
def initAdmit (cfg : SessionConfig) (mgr : SessionManager H) (now : Time) (init : VerifiedInit H) :
    SessionManager H × Bool :=
  let mgr := mgr.purgeInits now
  if mgr.handshakeReplays.contains init.replayKey then (mgr, false)
  else
    let mgr := mgr.recordReplay now init.replayKey
    let localHasPriority : Bool := cfg.identity.nodeId < init.peerId
    let pending := mgr.pendingTo? init.peerId
    if localHasPriority && (pending.isSome || mgr.activeLocally init.peerId) then (mgr, false)
    else
      let mgr :=
        match pending with
        | some (sessionId, _) => if !localHasPriority then mgr.erasePending sessionId else mgr
        | none => mgr
      (mgr, mgr.hasRoomFor cfg init.peerId)

/-- Third section: install the session, unless its id was taken or the table filled meanwhile. -/
def initInstall (P : Primitives H) (cfg : SessionConfig) (mgr : SessionManager H) (now : Time)
    (init : VerifiedInit H) : SessionManager H × Option HandshakeResponse :=
  match writeResponse P init with
  | none => (mgr, none)
  | some (encoded, split) =>
    let mgr := mgr.purgeIncompleteHandshakesLocked now
    if mgr.sessionIdInUse init.sessionId then (mgr, none)
    else if !mgr.hasRoomFor cfg init.peerId then (mgr, none)
    else
      (mgr.establish cfg now init.peerId init.sessionId split false,
        some ⟨encoded, init.peerId, init.peerStatic⟩)

end SessionManager

/-- The clock readings of the three sections of one `handle_handshake_init` call. -/
structure InitClock where
  check : Time
  admission : Time
  install : Time
  check_le_admission : check ≤ admission
  admission_le_install : admission ≤ install

/-- A clock that stands still during the call. -/
def InitClock.still (now : Time) : InitClock := ⟨now, now, now, le_refl _, le_refl _⟩

/-- `handle_handshake_init`, its sections taken one after the other. -/
def SessionManager.handleHandshakeInit {H : Type} (P : Primitives H) (cfg : SessionConfig)
    (mgr : SessionManager H) (clock : InitClock) (message : List UInt8) (outerSessionId : UInt32)
    (entropy : Entropy) : SessionManager H × Option HandshakeResponse :=
  match mgr.initCheck P cfg clock.check message outerSessionId entropy with
  | (mgr, none) => (mgr, none)
  | (mgr, some init) =>
    match mgr.initAdmit cfg clock.admission init with
    | (mgr, false) => (mgr, none)
    | (mgr, true) => mgr.initInstall P cfg clock.install init

/-! ### Taking the answer -/

/-- Read the RESP in a pending handshake: the keys, if it comes from the expected peer. -/
def readResponse {H : Type} (P : Primitives H) (state : PendingInitiator H) (noiseMessage : List UInt8) :
    Option NoiseIkSplitResult := do
  let handshake ← P.noise.readMessage state.handshake noiseMessage
  let remote ← P.noise.remoteStaticPublicKey handshake
  if remote ≠ state.expectedPeerStatic ∨ P.hashPublicKey remote ≠ state.expectedPeerId then none
  else P.noise.split handshake

def SessionManager.handleHandshakeResp {H : Type} (P : Primitives H) (cfg : SessionConfig)
    (mgr : SessionManager H) (now : Time) (message : List UInt8) (sessionId : UInt32) :
    SessionManager H × Bool :=
  let frame := parseHandshakeV2Response message
  let mgr := mgr.purgeIncompleteHandshakesLocked now
  match mgr.pendingInitiators.find? sessionId with
  | none => (mgr, false)
  | some state =>
    let mgr := mgr.erasePending sessionId
    match frame.filter (·.sessionId = sessionId) with
    | none => (mgr, false)
    | some frame =>
      match readResponse P state frame.noiseMessage.1 with
      | none => (mgr, false)
      | some split =>
        if mgr.activeRemotely state.expectedPeerId && state.expectedPeerId < cfg.identity.nodeId then
          (mgr, false)
        else if !mgr.hasRoomFor cfg state.expectedPeerId then (mgr, false)
        else (mgr.establish cfg now state.expectedPeerId sessionId split true, true)

/-! ### What a section can do -/

namespace SessionManager

variable {H : Type}

variable (P : Primitives H) (cfg : SessionConfig) (mgr : SessionManager H) (now : Time)

theorem createHandshakeInit_cases (sessionId : UInt32) (peerId : NodeId) (peerStatic : X25519Key) (entropy : Entropy) :
    mgr.createHandshakeInit P cfg now sessionId peerId peerStatic entropy = (mgr, none) ∨
    mgr.createHandshakeInit P cfg now sessionId peerId peerStatic entropy
      = (mgr.purgeIncompleteHandshakesLocked now, none) ∨
    ∃ encoded handshake, writeInit P cfg sessionId peerId peerStatic entropy = some (encoded, handshake) ∧
      (mgr.purgeIncompleteHandshakesLocked now).sessionIdInUse sessionId = false ∧
      (mgr.purgeIncompleteHandshakesLocked now).pendingInitiators.size < cfg.capacity.pending ∧
      mgr.createHandshakeInit P cfg now sessionId peerId peerStatic entropy
        = ({ mgr.purgeIncompleteHandshakesLocked now with
              pendingInitiators := (mgr.purgeIncompleteHandshakesLocked now).pendingInitiators.insert sessionId
                ⟨peerId, peerStatic, handshake, now + mgr.handshakeTimeout⟩ }, some encoded) := by
  unfold createHandshakeInit
  cases hwrite : writeInit P cfg sessionId peerId peerStatic entropy with
  | none => exact Or.inl rfl
  | some written =>
    obtain ⟨encoded, handshake⟩ := written
    right
    simp only
    split_ifs with huse hfull
    · exact Or.inl rfl
    · exact Or.inl rfl
    · exact Or.inr ⟨encoded, handshake, rfl, by simpa using huse, not_le.mp hfull, rfl⟩

theorem initCheck_cases (message : List UInt8) (outerSessionId : UInt32) (entropy : Entropy) :
    mgr.initCheck P cfg now message outerSessionId entropy = (mgr, none) ∨
    mgr.initCheck P cfg now message outerSessionId entropy = (mgr.purgeInits now, none) ∨
    ∃ frame replayKey, parseInit P cfg message outerSessionId = some (frame, replayKey) ∧
      (mgr.purgeInits now).handshakeReplays.contains replayKey = false ∧
      (mgr.purgeInits now).sessionIdInUse frame.sessionId = false ∧
      mgr.initCheck P cfg now message outerSessionId entropy
        = (mgr.purgeInits now, readInit P cfg frame replayKey entropy) := by
  unfold initCheck
  cases hparse : parseInit P cfg message outerSessionId with
  | none => exact Or.inl rfl
  | some parsed =>
    obtain ⟨frame, replayKey⟩ := parsed
    right
    simp only
    split_ifs with hcached huse
    · exact Or.inl rfl
    · exact Or.inl rfl
    · exact Or.inr ⟨frame, replayKey, rfl, by simpa using hcached, by simpa using huse, rfl⟩

/-- A cached transcript is refused, then an INIT that loses the collision; otherwise an own pending
initiation has lost, and the outcome is whether there is room. -/
theorem initAdmit_cases (init : VerifiedInit H) :
    ((mgr.purgeInits now).handshakeReplays.contains init.replayKey = true ∧
      mgr.initAdmit cfg now init = (mgr.purgeInits now, false)) ∨
    ((mgr.purgeInits now).handshakeReplays.contains init.replayKey = false ∧
      cfg.identity.nodeId < init.peerId ∧
      (((mgr.purgeInits now).pendingTo? init.peerId).isSome ∨ mgr.activeLocally init.peerId = true) ∧
      mgr.initAdmit cfg now init = ((mgr.purgeInits now).recordReplay now init.replayKey, false)) ∨
    ((mgr.purgeInits now).handshakeReplays.contains init.replayKey = false ∧
      (cfg.identity.nodeId < init.peerId →
        (mgr.purgeInits now).pendingTo? init.peerId = none ∧ mgr.activeLocally init.peerId = false) ∧
      mgr.initAdmit cfg now init
        = (((mgr.purgeInits now).recordReplay now init.replayKey).dropPendingTo init.peerId,
            mgr.hasRoomFor cfg init.peerId)) := by
  have hpending : ((mgr.purgeInits now).recordReplay now init.replayKey).pendingTo? init.peerId
      = (mgr.purgeInits now).pendingTo? init.peerId := rfl
  have hactive : ((mgr.purgeInits now).recordReplay now init.replayKey).activeLocally init.peerId
      = mgr.activeLocally init.peerId := rfl
  unfold initAdmit
  simp only [hpending, hactive]
  cases hcached : (mgr.purgeInits now).handshakeReplays.contains init.replayKey with
  | true => exact Or.inl ⟨rfl, rfl⟩
  | false =>
    right
    by_cases hpriority : cfg.identity.nodeId < init.peerId
    · cases hfind : (mgr.purgeInits now).pendingTo? init.peerId with
      | some pending => exact Or.inl ⟨rfl, hpriority, Or.inl rfl, by simp [hpriority]⟩
      | none =>
        cases hlocal : mgr.activeLocally init.peerId with
        | true => exact Or.inl ⟨rfl, hpriority, Or.inr rfl, by simp [hpriority]⟩
        | false =>
          refine Or.inr ⟨rfl, fun _ => ⟨rfl, rfl⟩, ?_⟩
          simp [hpriority, dropPendingTo, hpending, hfind]
          rfl
    · refine Or.inr ⟨rfl, fun h => absurd h hpriority, ?_⟩
      cases hfind : (mgr.purgeInits now).pendingTo? init.peerId with
      | some pending => simp [hpriority, dropPendingTo, hpending, hfind]; rfl
      | none => simp [hpriority, dropPendingTo, hpending, hfind]; rfl

theorem initInstall_cases (init : VerifiedInit H) :
    mgr.initInstall P cfg now init = (mgr, none) ∨
    mgr.initInstall P cfg now init = (mgr.purgeIncompleteHandshakesLocked now, none) ∨
    ∃ encoded split, writeResponse P init = some (encoded, split) ∧
      (mgr.purgeIncompleteHandshakesLocked now).sessionIdInUse init.sessionId = false ∧
      mgr.hasRoomFor cfg init.peerId = true ∧
      mgr.initInstall P cfg now init
        = ((mgr.purgeIncompleteHandshakesLocked now).establish cfg now init.peerId init.sessionId split false,
            some ⟨encoded, init.peerId, init.peerStatic⟩) := by
  unfold initInstall
  cases hwrite : writeResponse P init with
  | none => exact Or.inl rfl
  | some written =>
    obtain ⟨encoded, split⟩ := written
    right
    simp only
    split_ifs with huse hfull
    · exact Or.inl rfl
    · exact Or.inl rfl
    · refine Or.inr ⟨encoded, split, rfl, by simpa using huse, ?_, rfl⟩
      show (mgr.purgeIncompleteHandshakesLocked now).hasRoomFor cfg init.peerId = true
      simpa using hfull

theorem handleHandshakeResp_cases (message : List UInt8) (sessionId : UInt32) :
    mgr.handleHandshakeResp P cfg now message sessionId
      = (mgr.purgeIncompleteHandshakesLocked now, false) ∨
    mgr.handleHandshakeResp P cfg now message sessionId
      = ((mgr.purgeIncompleteHandshakesLocked now).erasePending sessionId, false) ∨
    ∃ state frame split,
      (mgr.purgeIncompleteHandshakesLocked now).pendingInitiators.find? sessionId = some state ∧
      parseHandshakeV2Response message = some frame ∧ frame.sessionId = sessionId ∧
      readResponse P state frame.noiseMessage.1 = some split ∧
      ¬(mgr.activeRemotely state.expectedPeerId = true ∧ state.expectedPeerId < cfg.identity.nodeId) ∧
      mgr.hasRoomFor cfg state.expectedPeerId = true ∧
      mgr.handleHandshakeResp P cfg now message sessionId
        = (((mgr.purgeIncompleteHandshakesLocked now).erasePending sessionId).establish cfg now
            state.expectedPeerId sessionId split true, true) := by
  unfold handleHandshakeResp
  simp only
  cases hpending : (mgr.purgeIncompleteHandshakesLocked now).pendingInitiators.find? sessionId with
  | none => exact Or.inl rfl
  | some state =>
    right
    cases hframe : (parseHandshakeV2Response message).filter (·.sessionId = sessionId) with
    | none => exact Or.inl rfl
    | some frame =>
      obtain ⟨hparse, hid⟩ := Option.filter_eq_some_iff.mp hframe
      cases hread : readResponse P state frame.noiseMessage.1 with
      | none => exact Or.inl (by simp only [hread])
      | some split =>
        simp only [hread]
        split_ifs with hremote hfull
        · exact Or.inl rfl
        · exact Or.inl rfl
        · refine Or.inr ⟨state, frame, split, rfl, hparse, by simpa using hid, hread, ?_, ?_, rfl⟩
          · show ¬(((mgr.purgeIncompleteHandshakesLocked now).erasePending sessionId).activeRemotely
              state.expectedPeerId = true ∧ _)
            simpa using hremote
          · show ((mgr.purgeIncompleteHandshakesLocked now).erasePending sessionId).hasRoomFor cfg
              state.expectedPeerId = true
            simpa using hfull

section

variable {P cfg mgr} {clock : InitClock} {message : List UInt8} {outerSessionId : UInt32} {entropy : Entropy}
  {mgr' mgr'' : SessionManager H} {init : VerifiedInit H}

theorem handleHandshakeInit_of_check
    (hcheck : mgr.initCheck P cfg clock.check message outerSessionId entropy = (mgr', none)) :
    mgr.handleHandshakeInit P cfg clock message outerSessionId entropy = (mgr', none) := by
  simp only [handleHandshakeInit, hcheck]

theorem handleHandshakeInit_of_lost
    (hcheck : mgr.initCheck P cfg clock.check message outerSessionId entropy = (mgr', some init))
    (hadmitted : mgr'.initAdmit cfg clock.admission init = (mgr'', false)) :
    mgr.handleHandshakeInit P cfg clock message outerSessionId entropy = (mgr'', none) := by
  simp only [handleHandshakeInit, hcheck, hadmitted]

theorem handleHandshakeInit_of_admitted
    (hcheck : mgr.initCheck P cfg clock.check message outerSessionId entropy = (mgr', some init))
    (hadmitted : mgr'.initAdmit cfg clock.admission init = (mgr'', true)) :
    mgr.handleHandshakeInit P cfg clock message outerSessionId entropy
      = mgr''.initInstall P cfg clock.install init := by
  simp only [handleHandshakeInit, hcheck, hadmitted]

end

theorem readInit_fields {frame : HandshakeV2InitFrame} {replayKey : CryptoHash} {entropy : Entropy}
    {init : VerifiedInit H} (h : readInit P cfg frame replayKey entropy = some init) :
    init.sessionId = frame.sessionId ∧ init.replayKey = replayKey := by
  simp only [readInit, Option.bind_eq_bind, Option.bind_eq_some_iff, Option.ite_none_left_eq_some,
    Option.some.injEq] at h
  obtain ⟨_, _, _, _, _, _, _, _, _, rfl⟩ := h
  exact ⟨rfl, rfl⟩

theorem purgeInits_purgeInits {now' : Time} (h : now ≤ now') :
    (mgr.purgeInits now).purgeInits now' = mgr.purgeInits now' := by
  have hpending : (mgr.pendingInitiators.filter fun _ p => decide (now < p.expires)).filter
      (fun _ p => decide (now' < p.expires)) = mgr.pendingInitiators.filter fun _ p => decide (now' < p.expires) :=
    SortedMap.filter_filter_of_imp fun _ p hp => by simpa using h.trans_lt (of_decide_eq_true hp)
  have hreplays : (mgr.handshakeReplays.filter fun _ e => decide (now < e)).filter
      (fun _ e => decide (now' < e)) = mgr.handshakeReplays.filter fun _ e => decide (now' < e) :=
    SortedMap.filter_filter_of_imp fun _ e he => by simpa using h.trans_lt (of_decide_eq_true he)
  simp only [purgeInits, purgeIncompleteHandshakesLocked, purgeHandshakeReplaysLocked, hpending, hreplays]

/-- The tables of active and retired sessions are the same. -/
structure SameSessions (mgr mgr' : SessionManager H) : Prop where
  sessions : mgr'.sessions = mgr.sessions
  sessionToPeer : mgr'.sessionToPeer = mgr.sessionToPeer
  retired : mgr'.retired = mgr.retired

theorem sameSessions_createHandshakeInit (sessionId : UInt32) (peerId : NodeId) (peerStatic : X25519Key)
    (entropy : Entropy) :
    mgr.SameSessions (mgr.createHandshakeInit P cfg now sessionId peerId peerStatic entropy).1 := by
  rcases createHandshakeInit_cases P cfg mgr now sessionId peerId peerStatic entropy with
    hresult | hresult | ⟨_, _, _, _, _, hresult⟩ <;> rw [hresult] <;> exact ⟨rfl, rfl, rfl⟩

theorem sameSessions_initCheck (message : List UInt8) (outerSessionId : UInt32) (entropy : Entropy) :
    mgr.SameSessions (mgr.initCheck P cfg now message outerSessionId entropy).1 := by
  rcases initCheck_cases P cfg mgr now message outerSessionId entropy with
    hresult | hresult | ⟨_, _, _, _, _, hresult⟩ <;> rw [hresult] <;> exact ⟨rfl, rfl, rfl⟩

theorem sameSessions_dropPendingTo (peerId : NodeId) : mgr.SameSessions (mgr.dropPendingTo peerId) := by
  unfold dropPendingTo
  cases mgr.pendingTo? peerId <;> exact ⟨rfl, rfl, rfl⟩

@[simp] theorem handshakeReplays_dropPendingTo (peerId : NodeId) :
    (mgr.dropPendingTo peerId).handshakeReplays = mgr.handshakeReplays := by
  unfold dropPendingTo
  cases mgr.pendingTo? peerId <;> rfl

@[simp] theorem handshakeReplays_removeSession (peerId : NodeId) :
    (mgr.removeSession peerId).handshakeReplays = mgr.handshakeReplays := by
  unfold removeSession
  cases mgr.sessions.find? peerId <;> rfl

theorem dropPendingTo_subset (peerId : NodeId) :
    (mgr.dropPendingTo peerId).pendingInitiators ⊆ mgr.pendingInitiators := by
  unfold dropPendingTo
  cases mgr.pendingTo? peerId with
  | none => exact SortedMap.subset_refl _
  | some pending => exact SortedMap.erase_subset _ _

theorem sameSessions_initAdmit (init : VerifiedInit H) : mgr.SameSessions (mgr.initAdmit cfg now init).1 := by
  rcases initAdmit_cases cfg mgr now init with ⟨_, hresult⟩ | ⟨_, _, _, hresult⟩ | ⟨_, _, hresult⟩
  · rw [hresult]
    exact ⟨rfl, rfl, rfl⟩
  · rw [hresult]
    exact ⟨rfl, rfl, rfl⟩
  · rw [hresult]
    have hdrop := sameSessions_dropPendingTo ((mgr.purgeInits now).recordReplay now init.replayKey) init.peerId
    exact ⟨hdrop.sessions, hdrop.sessionToPeer, hdrop.retired⟩

end SessionManager

end Aegis
