import Aegis.Lib.Run
import Aegis.Peer.Liveness
import Aegis.Protocol.EndpointPunch
import Aegis.Tunnel.DataPath

/-!
# Exchanging endpoint candidates

What `tunnel/tunnel.cpp` does with frames about endpoints. A peer announces the candidates it may be reached
at; the receiver adds the address the frame came from, stores the list with the peer and challenges every
endpoint in it. A challenge from a known endpoint is answered, and the endpoint of an answered challenge
becomes the peer's.

The list is stored as a whole or not at all, and the observed source is merged into it before that is decided:
`update_stored_iff` says that a source which is no valid candidate itself, such as an IPv6 address, keeps the
peer's update from being stored.
-/

namespace Aegis

variable {H : Type}

def TYPE_ENDPOINT_CANDIDATES : UInt8 := 0x0F
def TYPE_ENDPOINT_PUNCH : UInt8 := 0x10

/-- The state of a node that the endpoint handlers work on. -/
structure EndpointExchange (H : Type) where
  running : Bool := true
  peers : PeerManager := {}
  sessions : SessionManager H := {}
  transport : Transport := {}
  tracker : EndpointPunchTracker := {}
  attempts : SortedMap NodeId Time := ∅
  localCandidates : List EndpointCandidate := []

/-- What is drawn for the challenge of one candidate: the ids it is tried under and the padding of its
frame. -/
structure ChallengeDraws where
  ids : List (Option UInt64)
  entropy : Entropy

/-- A frame as the receive loop hands it over, with the readings of the clock while it is handled and what is
drawn for the frames sent in answer. -/
structure EndpointFrame where
  data : List UInt8
  sender : Endpoint
  seenAt : Time
  now : Time
  markedAt : Time
  entropy : Entropy
  challenges : Nat → ChallengeDraws

namespace EndpointExchange

def endpointOf (s : EndpointExchange H) (nodeId : NodeId) : Option Endpoint :=
  (s.peers.peers.find? nodeId).bind (·.endpoint)

/-- Open a frame of one type: the peer of its session and the message in it. The header is the one that
`rx_callback` has parsed. -/
def openFrame {α : Type} (P : Primitives H) (s : EndpointExchange H) (frame : EndpointFrame) (packetType : UInt8)
    (deserialize : List UInt8 → Option α) : EndpointExchange H × Option (NodeId × α) :=
  let decrypted := s.sessions.decryptMessage P frame.data
  ({ s with sessions := decrypted.1 }, do
    let msg ← decrypted.2
    if msg.packetType ≠ packetType then none
    else
      let header ← parsePacketHeader (frame.data.take PACKET_HEADER_SIZE)
      let session ← decrypted.1.getSessionById header.sessionId
      let message ← deserialize msg.payload
      some (session.peerId, message))

/-- Seal a payload for a peer and hand it to the transport as control traffic. -/
def sendControl (P : Primitives H) (cfg : TunnelConfig) (s : EndpointExchange H) (peerId : NodeId)
    (packetType : UInt8) (payload : List UInt8) (endpoint : Endpoint) (entropy : Entropy) :
    EndpointExchange H × Bool :=
  match s.sessions.encryptMessage P cfg.session peerId packetType payload 0 entropy with
  | (sessions, none) => ({ s with sessions }, false)
  | (sessions, some frame) =>
    let answer := s.transport.send frame endpoint .control
    ({ s with sessions, transport := answer.2 }, answer.1)

def sendEndpointPunch (P : Primitives H) (cfg : TunnelConfig) (s : EndpointExchange H) (peerId : NodeId)
    (endpoint : Endpoint) (message : EndpointPunchMessage) (entropy : Entropy) : EndpointExchange H × Bool :=
  match serializeEndpointPunch message with
  | none => (s, false)
  | some payload => s.sendControl P cfg peerId TYPE_ENDPOINT_PUNCH payload endpoint entropy

def sendEndpointCandidateUpdate (P : Primitives H) (cfg : TunnelConfig) (s : EndpointExchange H)
    (peerId : NodeId) (update : EndpointCandidateMessage) (entropy : Entropy) : EndpointExchange H :=
  match s.endpointOf peerId with
  | none => s
  | some endpoint =>
    if (s.sessions.findSessionLocked peerId).isNone then s
    else
      match serializeEndpointCandidates update with
      | none => s
      | some payload => (s.sendControl P cfg peerId TYPE_ENDPOINT_CANDIDATES payload endpoint entropy).1

def recordLocalEndpointCandidate (s : EndpointExchange H) (candidate : EndpointCandidate) : EndpointExchange H :=
  if validEndpointCandidate candidate then
    { s with localCandidates := mergeEndpointCandidate s.localCandidates candidate }
  else s

/-! ### Punching -/

/-- Begin a challenge under the first id drawn that can be used. -/
def beginUnder (target : EndpointPunchTarget) (now : Time) (tracker : EndpointPunchTracker) :
    List (Option UInt64) → EndpointPunchTracker × Option UInt64
  | [] => (tracker, none)
  | none :: ids => beginUnder target now tracker ids
  | some id :: ids =>
    if id = 0 then beginUnder target now tracker ids
    else
      match tracker.begin? id target now with
      | some tracker => (tracker, some id)
      | none => beginUnder target now tracker ids

/-- One turn of the loop over the candidates; a challenge that cannot be sent is cancelled. -/
def challenge (P : Primitives H) (cfg : TunnelConfig) (peerId : NodeId) (now : Time) (s : EndpointExchange H)
    (candidate : EndpointCandidate) (draws : ChallengeDraws) : EndpointExchange H :=
  match beginUnder ⟨peerId, candidate.endpoint⟩ now s.tracker (draws.ids.take 8) with
  | (tracker, none) => { s with tracker }
  | (tracker, some id) =>
    let sent := sendEndpointPunch P cfg { s with tracker } peerId candidate.endpoint ⟨.challenge, id⟩ draws.entropy
    if sent.2 then sent.1 else { sent.1 with tracker := sent.1.tracker.cancel id }

/-- The candidates of a peer, and its endpoint if it is not among them. -/
def punchCandidates (peer : Peer) : List EndpointCandidate :=
  match peer.endpoint with
  | none => peer.endpointCandidates
  | some endpoint =>
    if peer.endpointCandidates.any (·.endpoint = endpoint) then peer.endpointCandidates
    else peer.endpointCandidates ++ [⟨.peerObserved, endpoint, 500⟩]

/-- The last attempt was less than thirty seconds ago. -/
def attemptedRecently (s : EndpointExchange H) (peerId : NodeId) (now : Time) : Bool :=
  (s.attempts.find? peerId).any fun previous => previous ≤ now && now - previous < 30000

def beginEndpointPunching (P : Primitives H) (cfg : TunnelConfig) (s : EndpointExchange H) (peerId : NodeId)
    (now : Time) (draws : Nat → ChallengeDraws) : EndpointExchange H :=
  if (s.sessions.findSessionLocked peerId).isNone then s
  else
    match s.peers.peers.find? peerId with
    | none => s
    | some peer =>
      if s.attemptedRecently peerId now then s
      else
        (punchCandidates peer).zipIdx.foldl
          (fun s candidate => s.challenge P cfg peerId now candidate.1 (draws candidate.2))
          { s with attempts := s.attempts.insert peerId now }

/-! ### The handlers -/

/-- `handle_endpoint_candidates_frame` up to the punching, with the peer to punch. -/
def receiveCandidates (P : Primitives H) (cfg : TunnelConfig) (s : EndpointExchange H) (frame : EndpointFrame) :
    EndpointExchange H × Option NodeId :=
  if !s.running then (s, none)
  else
    match s.openFrame P frame TYPE_ENDPOINT_CANDIDATES deserializeEndpointCandidates with
    | (s, none) => (s, none)
    | (s, some (peerId, update)) =>
      let s := { s with peers := s.peers.markSeen frame.seenAt peerId none }
      if update.subject = peerId then
        let candidates := mergeEndpointCandidate update.candidates ⟨.peerObserved, frame.sender, 400⟩
        ({ s with peers := (s.peers.setEndpointCandidates peerId candidates).1 }, some peerId)
      else if update.subject ≠ cfg.nodeId then (s, none)
      else if update.candidates.any (·.type ≠ .peerObserved) then (s, none)
      else
        let s := update.candidates.foldl recordLocalEndpointCandidate s
        if s.localCandidates.isEmpty then (s, none)
        else (s.sendEndpointCandidateUpdate P cfg peerId ⟨cfg.nodeId, s.localCandidates⟩ frame.entropy, none)

def handleEndpointCandidatesFrame (P : Primitives H) (cfg : TunnelConfig) (s : EndpointExchange H)
    (frame : EndpointFrame) : EndpointExchange H :=
  match s.receiveCandidates P cfg frame with
  | (s, none) => s
  | (s, some peerId) => s.beginEndpointPunching P cfg peerId frame.now frame.challenges

/-- The source is the peer's endpoint or one of its candidates. -/
def knownEndpoint (peer : Peer) (source : Endpoint) : Bool :=
  peer.endpoint = some source || peer.endpointCandidates.any (·.endpoint = source)

def handleEndpointPunchFrame (P : Primitives H) (cfg : TunnelConfig) (s : EndpointExchange H)
    (frame : EndpointFrame) : EndpointExchange H :=
  if !s.running then s
  else
    match s.openFrame P frame TYPE_ENDPOINT_PUNCH deserializeEndpointPunch with
    | (s, none) => s
    | (s, some (peerId, punch)) =>
      let s := { s with peers := s.peers.markSeen frame.seenAt peerId none }
      match punch.kind with
      | .challenge =>
        match s.peers.peers.find? peerId with
        | none => s
        | some peer =>
          if !knownEndpoint peer frame.sender then s
          else
            (s.sendEndpointPunch P cfg peerId frame.sender ⟨.response, punch.transactionId⟩ frame.entropy).1
      | .response =>
        match s.tracker.acknowledge punch.transactionId peerId frame.sender frame.now with
        | (none, _) => s
        | (some target, tracker) =>
          { s with tracker, peers := s.peers.markHolePunched frame.markedAt target.peerId target.endpoint }

/-! ### What the handlers leave alone -/

variable {P : Primitives H} {cfg : TunnelConfig} {s : EndpointExchange H} {frame : EndpointFrame}

@[simp] theorem peers_sendControl (peerId : NodeId) (packetType : UInt8) (payload : List UInt8)
    (endpoint : Endpoint) (entropy : Entropy) :
    (s.sendControl P cfg peerId packetType payload endpoint entropy).1.peers = s.peers := by
  unfold sendControl
  split <;> rfl

@[simp] theorem peers_sendEndpointPunch (peerId : NodeId) (endpoint : Endpoint) (message : EndpointPunchMessage)
    (entropy : Entropy) : (s.sendEndpointPunch P cfg peerId endpoint message entropy).1.peers = s.peers := by
  unfold sendEndpointPunch
  split
  · rfl
  · exact peers_sendControl ..

@[simp] theorem peers_challenge (peerId : NodeId) (now : Time) (candidate : EndpointCandidate)
    (draws : ChallengeDraws) : (challenge P cfg peerId now s candidate draws).peers = s.peers := by
  unfold challenge
  split
  · rfl
  · dsimp only
    split <;> exact peers_sendEndpointPunch ..

@[simp] theorem peers_beginEndpointPunching (peerId : NodeId) (now : Time) (draws : Nat → ChallengeDraws) :
    (s.beginEndpointPunching P cfg peerId now draws).peers = s.peers := by
  unfold beginEndpointPunching
  split
  · rfl
  split
  · rfl
  split
  · rfl
  · refine Run.invariant (fun s' : EndpointExchange H => s'.peers = s.peers) ?_ ?_ _
    · intro s' candidate h
      exact (peers_challenge ..).trans h
    · rfl

/-! ### Candidate updates -/

/-- The source of a frame, as the handler merges it into the candidates. -/
def observed (frame : EndpointFrame) : EndpointCandidate := ⟨.peerObserved, frame.sender, 400⟩

theorem openFrame_eq_some {α : Type} {packetType : UInt8} {deserialize : List UInt8 → Option α}
    {peerId : NodeId} {message : α} (h : (s.openFrame P frame packetType deserialize).2 = some (peerId, message)) :
    ∃ msg header session, (s.sessions.decryptMessage P frame.data).2 = some msg ∧
      parsePacketHeader (frame.data.take PACKET_HEADER_SIZE) = some header ∧
      (s.sessions.decryptMessage P frame.data).1.getSessionById header.sessionId = some session ∧
      deserialize msg.payload = some message ∧ session.peerId = peerId := by
  simp only [openFrame, Option.bind_eq_bind, Option.bind_eq_some_iff] at h
  obtain ⟨msg, hmsg, h⟩ := h
  split_ifs at h
  obtain ⟨header, hheader, h⟩ := Option.bind_eq_some_iff.mp h
  obtain ⟨session, hsession, h⟩ := Option.bind_eq_some_iff.mp h
  obtain ⟨_, hmessage, h⟩ := Option.bind_eq_some_iff.mp h
  obtain ⟨rfl, rfl⟩ := Prod.mk.inj (Option.some.inj h)
  exact ⟨msg, header, session, hmsg, hheader, hsession, hmessage, rfl⟩

theorem candidates_after_update {peerId : NodeId} {update : EndpointCandidateMessage} {peer : Peer}
    (hrunning : s.running = true)
    (hopen : (s.openFrame P frame TYPE_ENDPOINT_CANDIDATES deserializeEndpointCandidates).2 = some (peerId, update))
    (hsubject : update.subject = peerId) (hpeer : s.peers.peers.find? peerId = some peer) :
    ∃ after, (s.handleEndpointCandidatesFrame P cfg frame).peers.peers.find? peerId = some after ∧
      after.endpointCandidates = if validEndpointCandidate (observed frame) then
        mergeEndpointCandidate update.candidates (observed frame) else peer.endpointCandidates := by
  obtain ⟨_, _, _, -, -, -, hpayload, -⟩ := openFrame_eq_some hopen
  have hpeers : (s.handleEndpointCandidatesFrame P cfg frame).peers
      = ((s.peers.markSeen frame.seenAt peerId none).setEndpointCandidates peerId
          (mergeEndpointCandidate update.candidates (observed frame))).1 := by
    have hkept : (s.openFrame P frame TYPE_ENDPOINT_CANDIDATES deserializeEndpointCandidates).1.peers = s.peers := rfl
    cases hopened : s.openFrame P frame TYPE_ENDPOINT_CANDIDATES deserializeEndpointCandidates with
    | mk opened message =>
      rw [hopened] at hopen hkept
      obtain rfl : message = some (peerId, update) := hopen
      simp only [handleEndpointCandidatesFrame, receiveCandidates, hrunning, Bool.not_true, Bool.false_eq_true,
        if_false, hopened, hsubject, if_true, peers_beginEndpointPunching]
      rw [← hkept]
      rfl
  rw [hpeers, PeerManager.setEndpointCandidates,
    acceptable_merge_iff (acceptable_of_deserialize hpayload), PeerManager.markSeen_eq_modify]
  cases validEndpointCandidate (observed frame) <;> simp [hpeer]

/-- Every endpoint of the update is stored with the peer, but for the first candidate of the lowest priority
of an update that has as many as there may be. -/
def Stores (s : EndpointExchange H) (peerId : NodeId) (update : EndpointCandidateMessage) : Prop :=
  ∃ peer, s.peers.peers.find? peerId = some peer ∧ ∀ candidate ∈ update.candidates,
    candidate.endpoint ∈ peer.endpointCandidates.map (·.endpoint) ∨
      (update.candidates.length = ENDPOINT_CANDIDATE_MAX_COUNT ∧
        update.candidates.find? (lowestPriority update.candidates) = some candidate)

/-- The endpoint is of one host: not unspecified, not a broadcast and not a multicast address. -/
def unicast (endpoint : Endpoint) : Bool :=
  !endpoint.unspecified &&
    match endpoint.address.family with
    | .ipv4 => endpoint.address.ipv4Value ≠ 0xFFFFFFFF && endpoint.address.ipv4Value &&& 0xF0000000 ≠ 0xE0000000
    | .ipv6 => endpoint.address.bytes.1.getD 0 0 ≠ 0xFF

theorem valid_observed (hunicast : unicast frame.sender = true) (hport : frame.sender.port ≠ 0) :
    validEndpointCandidate (observed frame) = frame.sender.isIpv4 := by
  unfold unicast at hunicast
  rw [Bool.and_eq_true, Bool.not_eq_true'] at hunicast
  cases hfamily : frame.sender.address.family with
  | ipv6 => simp [validEndpointCandidate, observed, Endpoint.isIpv4, hfamily]
  | ipv4 =>
    rw [hfamily] at hunicast
    rw [validEndpointCandidate, if_neg (by simp [observed, Endpoint.isIpv4, hfamily, hport, hunicast.1])]
    have hipv4 : frame.sender.isIpv4 = true := by simp [Endpoint.isIpv4, hfamily]
    rw [hipv4]
    exact hunicast.2

/-- Whether a peer's update about itself is kept: when the frame came from an IPv4 address, or everything in it
was stored before. -/
theorem update_stored_iff {peerId : NodeId} {update : EndpointCandidateMessage} (hrunning : s.running = true)
    (hopen : (s.openFrame P frame TYPE_ENDPOINT_CANDIDATES deserializeEndpointCandidates).2 = some (peerId, update))
    (hsubject : update.subject = peerId) (hknown : s.peers.peers.contains peerId = true)
    (hunicast : unicast frame.sender = true) (hport : frame.sender.port ≠ 0) :
    (s.handleEndpointCandidatesFrame P cfg frame).Stores peerId update ↔
      frame.sender.isIpv4 = true ∨ s.Stores peerId update := by
  obtain ⟨peer, hpeer⟩ := SortedMap.contains_iff.mp hknown
  obtain ⟨after, hafter, hcandidates⟩ := @candidates_after_update _ P cfg s frame _ _ _ hrunning hopen hsubject hpeer
  obtain ⟨_, _, _, -, -, -, hpayload, -⟩ := openFrame_eq_some hopen
  have hsize := (acceptableCandidates_iff.mp (acceptable_of_deserialize hpayload)).2.1
  rw [valid_observed hunicast hport] at hcandidates
  cases hfamily : frame.sender.isIpv4 with
  | true =>
    refine iff_of_true ⟨after, hafter, ?_⟩ (Or.inl rfl)
    intro candidate hcandidate
    rw [hcandidates, if_pos hfamily]
    exact endpoint_mem_merge hsize hcandidate
  | false =>
    rw [hfamily] at hcandidates
    simp only [Stores, hafter, hpeer, Option.some.injEq, exists_eq_left', hcandidates, Bool.false_eq_true, if_false,
      false_or]

/-- Node 2 with a session to node 1, which it knows. -/
def sampleExchange : EndpointExchange ClearHandshake where
  peers := (({} : PeerManager).upsert 1 (FixedBytes.copy 32 [1]) (FixedBytes.copy 32 [1]) none true).1
  sessions := Link.sampleLink.receiver

/-- Node 1 announces that it may be reached at 10.0.0.1, port 7000. -/
def sampleUpdate : EndpointCandidateMessage where
  subject := FixedBytes.copy 32 [1]
  candidates := [⟨.host, ⟨IPAddress.fromIpv4 0x0a000001, 7000⟩, 300⟩]

/-- The frame of node 1 with a payload, and where it comes from. -/
def sampleEndpointFrame (packetType : UInt8) (payload : Option (List UInt8)) (sender : Endpoint) :
    EndpointFrame where
  data := (Link.sampleLink.sender.encryptMessage clearPrimitives (.sample 1) (FixedBytes.copy 32 [2]) packetType
    (payload.getD []) 0 (some fun _ => 0)).2.getD []
  sender := sender
  seenAt := 2
  now := 2
  markedAt := 2
  entropy := none
  challenges := fun _ => ⟨[], none⟩

/-- The update from 10.0.0.1 itself. -/
def sampleIpv4Frame : EndpointFrame :=
  sampleEndpointFrame TYPE_ENDPOINT_CANDIDATES (serializeEndpointCandidates sampleUpdate)
    ⟨IPAddress.fromIpv4 0x0a000001, 7000⟩

theorem update_stored_sampleUpdate :
    (sampleExchange.handleEndpointCandidatesFrame clearPrimitives (sampleTunnel 2) sampleIpv4Frame).Stores
      (FixedBytes.copy 32 [1]) sampleUpdate := by
  have hopen : (sampleExchange.openFrame clearPrimitives sampleIpv4Frame TYPE_ENDPOINT_CANDIDATES
      deserializeEndpointCandidates).2 = some (FixedBytes.copy 32 [1], sampleUpdate) := by decide +kernel
  have hiff := @update_stored_iff _ clearPrimitives (sampleTunnel 2) sampleExchange sampleIpv4Frame _ _ rfl hopen rfl
    (by decide +kernel) (by decide +kernel) (by decide +kernel)
  exact hiff.mpr (Or.inl (by decide +kernel))

/-- The same update, from an IPv6 address. -/
def sampleIpv6Frame : EndpointFrame :=
  sampleEndpointFrame TYPE_ENDPOINT_CANDIDATES (serializeEndpointCandidates sampleUpdate)
    ⟨⟨.ipv6, FixedBytes.copy 16 [0x20, 0x01, 0x0d, 0xb8]⟩, 7000⟩

/-- It opens, and nothing of it is stored. -/
theorem update_lost_from_ipv6 :
    (sampleExchange.openFrame clearPrimitives sampleIpv6Frame TYPE_ENDPOINT_CANDIDATES
      deserializeEndpointCandidates).2 = some (FixedBytes.copy 32 [1], sampleUpdate) ∧
    unicast sampleIpv6Frame.sender = true ∧ sampleIpv6Frame.sender.port ≠ 0 ∧
    ((sampleExchange.handleEndpointCandidatesFrame clearPrimitives (sampleTunnel 2) sampleIpv6Frame).peers.peers.find?
      (FixedBytes.copy 32 [1])).map (·.endpointCandidates) = some [] ∧
    ¬(sampleExchange.handleEndpointCandidatesFrame clearPrimitives (sampleTunnel 2) sampleIpv6Frame).Stores
      (FixedBytes.copy 32 [1]) sampleUpdate := by
  have hempty : ((sampleExchange.handleEndpointCandidatesFrame clearPrimitives (sampleTunnel 2)
      sampleIpv6Frame).peers.peers.find? (FixedBytes.copy 32 [1])).map (·.endpointCandidates) = some [] := by
    decide +kernel
  refine ⟨by decide +kernel, by decide +kernel, by decide +kernel, hempty, ?_⟩
  rintro ⟨peer, hpeer, hall⟩
  rw [hpeer, Option.map_some, Option.some_inj] at hempty
  rcases hall _ (List.mem_singleton.mpr rfl) with hstored | ⟨hfull, -⟩
  · rw [hempty] at hstored
    exact List.not_mem_nil hstored
  · exact absurd hfull (by decide)

end EndpointExchange

end Aegis
