import Aegis.Packet.IPPacket
import Aegis.Packet.Mtu
import Aegis.Peer.Manager
import Aegis.Routing.Engine
import Aegis.Session.FrameSize
import Aegis.Transport.Udp
import Mathlib.Logic.Relation

/-!
# The data path

What `tx_loop` of `tunnel/tunnel.cpp` does with one packet from the adapter, and what `handle_relay` does
with one relay frame. A direct packet is sealed as it is; along a relayed route the packet is wrapped in one
onion layer per hop and sealed for the first hop, and every relay peels its layer and seals the rest for the
next one.

The quota of a relay is a parameter, log lines are left out, and a frame that is handed to the transport
counts as sent. `data_frame_within_underlay` bounds every frame on the way by the underlay, and
`admitted_packet_sendable_iff` says which of the packets that fit the overlay can be sealed.
-/

namespace Aegis

variable {H : Type}

def TYPE_DATA : UInt8 := 0x02
def TYPE_RELAY : UInt8 := 0x06
def RELAY_CONTENT_IP_PACKET : UInt8 := 1
def RELAY_CONTENT_PATH_PROBE : UInt8 := 2

/-- What the data path reads of a tunnel's configuration and identity. -/
structure TunnelConfig where
  session : SessionConfig
  publicKey : X25519Key
  underlayMtu : Nat := DEFAULT_UNDERLAY_MTU
  maxRelayDepth : Nat := ONION_MAX_HOPS

namespace TunnelConfig

variable (cfg : TunnelConfig)

def nodeId : NodeId := cfg.session.identity.nodeId

def keypair : X25519KeyPair := ⟨cfg.session.identity.privateKey, cfg.publicKey⟩

def routeMtu (routeDepth : Nat) : Option Nat :=
  safeOverlayMtu cfg.underlayMtu routeDepth cfg.session.paddingBucketSize

def packetFitsRoute (packetSize routeDepth : Nat) : Bool :=
  (cfg.routeMtu routeDepth).any (packetSize ≤ ·)

end TunnelConfig

/-- The state of a node that its data path works on. -/
structure DataPath (H : Type) where
  peers : PeerManager := {}
  routing : RoutingEngine := {}
  sessions : SessionManager H := {}
  onionCounter : UInt64 := 0
  oversizeOutboundDrops : UInt64 := 0
  unroutedCount : UInt32 := 0

/-- How `tx_loop` ends its turn on a packet. -/
inductive TxOutcome where
  | unparsable
  | multicast
  | broadcast
  | unrouted
  | oversize
  | tooDeep
  | unknownHop
  | onionFailed
  | encryptFailed
  | noEndpoint
  | sent (frame : List UInt8) (endpoint : Endpoint)
deriving DecidableEq

/-- How `handle_relay` ends. -/
inductive RelayOutcome where
  | dropped
  | delivered (source : NodeId) (contentType : UInt8) (inner : List UInt8)
  | forwarded (frame : List UInt8) (endpoint : Endpoint)
deriving DecidableEq

/-- The payload of a relay frame: source, content class and onion. -/
def relayPayload (source : NodeId) (contentType : UInt8) (onion : List UInt8) : List UInt8 :=
  source.1 ++ contentType :: onion

/-- `get_session_by_id`. -/
def SessionManager.getSessionById (mgr : SessionManager H) (sessionId : UInt32) : Option SessionState :=
  ((mgr.sessionToPeer.find? sessionId).bind mgr.findSessionLocked).or
    (((mgr.retired.find? sessionId).map (·.session)).filter (·.established))

theorem SessionManager.getSessionById_of_find {mgr : SessionManager H} {sessionId : UInt32} {session : SessionState}
    (h : mgr.findSessionByIdLocked sessionId = some session) : mgr.getSessionById sessionId = some session := by
  unfold findSessionByIdLocked at h
  unfold getSessionById
  cases hindex : mgr.sessionToPeer.find? sessionId with
  | none =>
    rw [hindex] at h
    exact h
  | some peerId =>
    rw [hindex] at h
    rw [Option.bind_some, show mgr.findSessionLocked peerId = some session from h, Option.some_or]

namespace DataPath

def endpointOf (s : DataPath H) (nodeId : NodeId) : Option Endpoint :=
  (s.peers.peers.find? nodeId).bind (·.endpoint)

def encrypt (P : Primitives H) (cfg : TunnelConfig) (s : DataPath H) (peerId : NodeId) (packetType : UInt8)
    (payload : List UInt8) (flags : UInt8) (entropy : Entropy) : DataPath H × Option (List UInt8) :=
  let (sessions, frame) := s.sessions.encryptMessage P cfg.session peerId packetType payload flags entropy
  ({ s with sessions }, frame)

def countOversize (s : DataPath H) : DataPath H :=
  { s with oversizeOutboundDrops := s.oversizeOutboundDrops + 1 }

def txDirect (P : Primitives H) (cfg : TunnelConfig) (s : DataPath H) (route : Route) (raw : List UInt8)
    (entropy : Entropy) : DataPath H × TxOutcome :=
  if !cfg.packetFitsRoute raw.length DIRECT_ROUTE_DEPTH then (s.countOversize, .oversize)
  else
    match s.endpointOf route.destination with
    | none => (s, .noEndpoint)
    | some endpoint =>
      match s.encrypt P cfg route.destination TYPE_DATA raw 0 entropy with
      | (s, none) => (s, .encryptFailed)
      | (s, some frame) => (s, .sent frame endpoint)

def pathKeys (s : DataPath H) (path : List NodeId) : Option (List X25519Key) :=
  path.mapM fun hop => (s.peers.peers.find? hop).map (·.publicKey)

def txRelay (P : Primitives H) (O : OnionPrimitives) (cfg : TunnelConfig) (s : DataPath H) (route : Route)
    (raw : List UInt8) (entropy : Entropy) : DataPath H × TxOutcome :=
  if cfg.maxRelayDepth < route.path.length then (s, .tooDeep)
  else if !cfg.packetFitsRoute raw.length route.path.length then (s.countOversize, .oversize)
  else
    match s.pathKeys route.path with
    | none => (s, .unknownHop)
    | some keys =>
      match buildOnion O cfg.keypair route.path keys raw s.onionCounter with
      | (counter, none) => ({ s with onionCounter := counter }, .onionFailed)
      | (counter, some onion) =>
        match encrypt P cfg { s with onionCounter := counter } route.nextHop TYPE_RELAY
            (relayPayload cfg.nodeId RELAY_CONTENT_IP_PACKET onion) FLAG_RELAY entropy with
        | (s, none) => (s, .encryptFailed)
        | (s, some frame) =>
          match s.endpointOf route.nextHop with
          | none => (s, .noEndpoint)
          | some endpoint => (s, .sent frame endpoint)

/-- One turn of `tx_loop`, on the packet the adapter handed over. -/
def txPacket (P : Primitives H) (O : OnionPrimitives) (cfg : TunnelConfig) (s : DataPath H) (raw : List UInt8)
    (entropy : Entropy) : DataPath H × TxOutcome :=
  match IPPacket.parse raw with
  | none => (s, .unparsable)
  | some parsed =>
    if parsed.destIp &&& 0xF0000000 = 0xE0000000 then (s, .multicast)
    else if parsed.destIp = 0xFFFFFFFF then (s, .broadcast)
    else
      match s.routing.findRoute (IPAddress.fromIpv4 parsed.destIp) with
      | none => ({ s with unroutedCount := s.unroutedCount + 1 }, .unrouted)
      | some route =>
        if route.type = .direct then s.txDirect P cfg route raw entropy
        else s.txRelay P O cfg route raw entropy

/-- The checks of `handle_relay` on a payload, and the layer peeled with the source's key. -/
def openRelay (O : OnionPrimitives) (cfg : TunnelConfig) (s : DataPath H) (payload : List UInt8) :
    Option (NodeId × UInt8 × PeeledOnion) :=
  if payload.length < NODE_ID_SIZE + RELAY_CONTENT_TYPE_SIZE + ONION_OVERHEAD then none
  else
    let source := FixedBytes.copy 32 (payload.take NODE_ID_SIZE)
    let contentType := payload.getD NODE_ID_SIZE 0
    if contentType ≠ RELAY_CONTENT_IP_PACKET ∧ contentType ≠ RELAY_CONTENT_PATH_PROBE then none
    else do
      let peer ← s.peers.peers.find? source
      let peeled ← peelOnion O cfg.keypair peer.publicKey
        (payload.drop (NODE_ID_SIZE + RELAY_CONTENT_TYPE_SIZE))
      some (source, contentType, peeled)

/-- Pass a peeled onion on to its next hop, within the quota of the peer it came from. -/
def forward (P : Primitives H) (cfg : TunnelConfig) (allow : NodeId → Nat → Bool) (s : DataPath H)
    (authenticatedSender source : NodeId) (contentType : UInt8) (peeled : PeeledOnion) (entropy : Entropy) :
    DataPath H × RelayOutcome :=
  match s.endpointOf peeled.nextHop with
  | none => (s, .dropped)
  | some endpoint =>
    let forwardedSize :=
      sessionFrameOverhead cfg.session.paddingBucketSize + RELAY_SOURCE_OVERHEAD + peeled.inner.length
    if !allow authenticatedSender forwardedSize then (s, .dropped)
    else
      match s.encrypt P cfg peeled.nextHop TYPE_RELAY (relayPayload source contentType peeled.inner) FLAG_RELAY
          entropy with
      | (s, none) => (s, .dropped)
      | (s, some frame) => (s, .forwarded frame endpoint)

def handleRelay (P : Primitives H) (O : OnionPrimitives) (cfg : TunnelConfig) (allow : NodeId → Nat → Bool)
    (s : DataPath H) (now : Time) (data : List UInt8) (sessionId : UInt32) (entropy : Entropy) :
    DataPath H × RelayOutcome :=
  match s.sessions.decryptMessage P data with
  | (sessions, none) => ({ s with sessions }, .dropped)
  | (sessions, some msg) =>
    if msg.packetType ≠ TYPE_RELAY then ({ s with sessions }, .dropped)
    else
      match sessions.getSessionById sessionId with
      | none => ({ s with sessions }, .dropped)
      | some session =>
        let s := { s with sessions, peers := s.peers.markSeen now session.peerId none }
        match s.openRelay O cfg msg.payload with
        | none => (s, .dropped)
        | some (source, contentType, peeled) =>
          -- an all-zero next hop marks the destination
          if peeled.nextHop = FixedBytes.zero 32 then (s, .delivered source contentType peeled.inner)
          else if peeled.nextHop = cfg.nodeId then (s, .dropped)
          else s.forward P cfg allow session.peerId source contentType peeled entropy

end DataPath

/-! ### Payloads and frames on the way -/

/-- The payload `tx_loop` builds for a packet on a route of this depth. -/
def TunnelConfig.IsDataPayload (cfg : TunnelConfig) (O : OnionPrimitives) (raw : List UInt8) (routeDepth : Nat)
    (payload : List UInt8) : Prop :=
  routeDepth = DIRECT_ROUTE_DEPTH ∧ payload = raw ∨
  DIRECT_ROUTE_DEPTH < routeDepth ∧ ∃ path keys counter onion, path.length = routeDepth ∧
    (buildOnion O cfg.keypair path keys raw counter).2 = some onion ∧
    payload = relayPayload cfg.nodeId RELAY_CONTENT_IP_PACKET onion

/-- A node under this underlay MTU and bucket, in whatever state, turns the one frame into the other. -/
def RelaysTo (P : Primitives H) (O : OnionPrimitives) (underlayMtu bucketSize : Nat)
    (frame frame' : List UInt8) : Prop :=
  ∃ (cfg : TunnelConfig) (allow : NodeId → Nat → Bool) (s : DataPath H) (now : Time) (sessionId : UInt32)
    (entropy : Entropy) (endpoint : Endpoint),
    cfg.underlayMtu = underlayMtu ∧ cfg.session.paddingBucketSize = bucketSize ∧
    (s.handleRelay P O cfg allow now frame sessionId entropy).2 = .forwarded frame' endpoint

/-- A frame of whole buckets that fits the underlay with its outer headers. -/
structure FitsUnderlay (underlayMtu bucketSize : Nat) (frame : List UInt8) : Prop where
  buckets : ∃ size, bucketSize ∣ size ∧ frame.length = 44 + size
  fits : frame.length + OUTER_IPV4_UDP_OVERHEAD ≤ underlayMtu

theorem length_relayPayload (source : NodeId) (contentType : UInt8) (onion : List UInt8) :
    (relayPayload source contentType onion).length = RELAY_SOURCE_OVERHEAD + onion.length := by
  simp only [relayPayload, List.length_append, List.length_cons, source.2, RELAY_SOURCE_OVERHEAD, NODE_ID_SIZE,
    RELAY_CONTENT_TYPE_SIZE]
  omega

namespace TunnelConfig

variable {cfg : TunnelConfig} {O : OnionPrimitives}

theorem IsDataPayload.length {raw payload : List UInt8} {routeDepth : Nat}
    (h : cfg.IsDataPayload O raw routeDepth payload) : payload.length = raw.length + relayOverhead routeDepth := by
  unfold relayOverhead
  rcases h with ⟨rfl, rfl⟩ | ⟨hrelay, path, keys, counter, onion, rfl, honion, rfl⟩
  · simp
  · rw [if_pos hrelay, length_relayPayload, length_buildOnion honion]
    omega

theorem packetFitsRoute_iff {packetSize routeDepth : Nat} :
    cfg.packetFitsRoute packetSize routeDepth = true ↔
      ∃ mtu, safeOverlayMtu cfg.underlayMtu routeDepth cfg.session.paddingBucketSize = some mtu ∧
        packetSize ≤ mtu := by
  simp [packetFitsRoute, routeMtu, Option.any_eq_true]

/-- The contract, in terms of the payload: a packet that fits leaves room for frame and padding. -/
theorem payload_of_fits {raw payload : List UInt8} {routeDepth : Nat}
    (hfits : cfg.packetFitsRoute raw.length routeDepth = true) (hpayload : cfg.IsDataPayload O raw routeDepth payload) :
    payload.length + (75 + cfg.session.paddingBucketSize) ≤ cfg.underlayMtu := by
  obtain ⟨mtu, hmtu, hle⟩ := packetFitsRoute_iff.mp hfits
  obtain ⟨-, -, -, -, -, hsum⟩ := safeOverlayMtu_eq_some_iff.mp hmtu
  rw [hpayload.length]
  omega

end TunnelConfig

namespace FitsUnderlay

variable {P : Primitives H} {O : OnionPrimitives} {underlayMtu bucketSize : Nat} {frame frame' : List UInt8}

theorem of_encryptMessage {cfg : SessionConfig} {mgr : SessionManager H} {peerId : NodeId}
    {packetType flags : UInt8} {payload : List UInt8} {entropy : Entropy}
    (h : (mgr.encryptMessage P cfg peerId packetType payload flags entropy).2 = some frame)
    (hroom : payload.length + (75 + cfg.paddingBucketSize) ≤ underlayMtu) :
    FitsUnderlay underlayMtu cfg.paddingBucketSize frame := by
  obtain ⟨hbucket, -, hlength⟩ := SessionManager.length_encryptMessage h
  refine ⟨⟨_, bucket_dvd_sessionPaddedPlaintextSize _ _, hlength⟩, ?_⟩
  have hpadded := @sessionPaddedPlaintextSize_le_add payload.length _ hbucket
  have hpos : 0 < cfg.paddingBucketSize := by
    rcases supportedBucket_cases hbucket with h | h | h | h <;> omega
  simp only [OUTER_IPV4_UDP_OVERHEAD, SESSION_LENGTH_PREFIX_SIZE] at hpadded ⊢
  omega

theorem reseal (h : FitsUnderlay underlayMtu bucketSize frame) {cfg : SessionConfig}
    (hcfg : cfg.paddingBucketSize = bucketSize) {mgr : SessionManager H} {peerId : NodeId}
    {packetType flags : UInt8} {payload : List UInt8} {entropy : Entropy} (hsize : payload.length + 48 ≤ frame.length)
    (hframe' : (mgr.encryptMessage P cfg peerId packetType payload flags entropy).2 = some frame') :
    FitsUnderlay underlayMtu bucketSize frame' := by
  subst hcfg
  obtain ⟨⟨size, hdvd, hlength⟩, hfits⟩ := h
  obtain ⟨hbucket, -, hlength'⟩ := SessionManager.length_encryptMessage hframe'
  have hle : sessionPaddedPlaintextSize payload.length cfg.paddingBucketSize ≤ size := by
    apply sessionPaddedPlaintextSize_le hbucket hdvd
    simp only [SESSION_LENGTH_PREFIX_SIZE]
    omega
  exact ⟨⟨_, bucket_dvd_sessionPaddedPlaintextSize _ _, hlength'⟩, by omega⟩

end FitsUnderlay

namespace DataPath

variable {P : Primitives H} {O : OnionPrimitives} {cfg : TunnelConfig} {s : DataPath H}

theorem openRelay_congr {s' : DataPath H} (h : s'.peers = s.peers) {payload : List UInt8} :
    s'.openRelay O cfg payload = s.openRelay O cfg payload := by
  rw [openRelay, h]
  rfl

theorem length_openRelay {payload : List UInt8} {source : NodeId} {contentType : UInt8} {peeled : PeeledOnion}
    (h : s.openRelay O cfg payload = some (source, contentType, peeled)) :
    (relayPayload source contentType peeled.inner).length + ONION_OVERHEAD = payload.length := by
  unfold openRelay at h
  split_ifs at h with hshort
  dsimp only at h
  split_ifs at h with hcontent
  simp only [Option.bind_eq_bind, Option.bind_eq_some_iff] at h
  obtain ⟨peer, -, opened, hpeel, heq⟩ := h
  obtain ⟨-, -, rfl⟩ := Option.some.inj heq |> Prod.mk.inj |>.imp_right Prod.mk.inj
  have hlength := length_peelOnion hpeel
  rw [List.length_drop] at hlength
  rw [length_relayPayload]
  simp only [RELAY_SOURCE_OVERHEAD, NODE_ID_SIZE, RELAY_CONTENT_TYPE_SIZE, ONION_OVERHEAD, ONION_NONCE_SIZE,
    ONION_TAG_SIZE, ONION_NEXT_HOP_SIZE] at hshort hlength ⊢
  omega

theorem forward_forwarded {allow : NodeId → Nat → Bool} {authenticatedSender source : NodeId}
    {contentType : UInt8} {peeled : PeeledOnion} {entropy : Entropy} {frame' : List UInt8} {endpoint : Endpoint}
    (h : (s.forward P cfg allow authenticatedSender source contentType peeled entropy).2 = .forwarded frame' endpoint) :
    (s.sessions.encryptMessage P cfg.session peeled.nextHop TYPE_RELAY
      (relayPayload source contentType peeled.inner) FLAG_RELAY entropy).2 = some frame' := by
  unfold forward at h
  cases hendpoint : s.endpointOf peeled.nextHop with
  | none => simp [hendpoint] at h
  | some target =>
    simp only [hendpoint, encrypt] at h
    split_ifs at h
    cases hseal : (s.sessions.encryptMessage P cfg.session peeled.nextHop TYPE_RELAY
      (relayPayload source contentType peeled.inner) FLAG_RELAY entropy).2 with
    | none => simp [hseal] at h
    | some sealed =>
      simp only [hseal, RelayOutcome.forwarded.injEq] at h
      rw [h.1]

theorem forward_peers {allow : NodeId → Nat → Bool} {authenticatedSender source : NodeId} {contentType : UInt8}
    {peeled : PeeledOnion} {entropy : Entropy} :
    (s.forward P cfg allow authenticatedSender source contentType peeled entropy).1.peers = s.peers := by
  unfold forward
  cases s.endpointOf peeled.nextHop with
  | none => rfl
  | some endpoint =>
    simp only [encrypt]
    split_ifs
    · rfl
    · cases (s.sessions.encryptMessage P cfg.session peeled.nextHop TYPE_RELAY
          (relayPayload source contentType peeled.inner) FLAG_RELAY entropy).2 with
      | none => rfl
      | some frame => rfl

/-- A frame passed on was sealed for the peeled hop, which is neither zero nor the relay, and carries what the
relay read, one layer less. -/
theorem handleRelay_forwarded {allow : NodeId → Nat → Bool} {now : Time} {frame frame' : List UInt8}
    {sessionId : UInt32} {entropy : Entropy} {endpoint : Endpoint}
    (h : (s.handleRelay P O cfg allow now frame sessionId entropy).2 = .forwarded frame' endpoint) :
    ∃ payload source contentType peeled,
      (s.sessions.decryptMessage P frame).2 = some ⟨TYPE_RELAY, payload⟩ ∧
      (s.handleRelay P O cfg allow now frame sessionId entropy).1.openRelay O cfg payload
        = some (source, contentType, peeled) ∧
      peeled.nextHop ≠ FixedBytes.zero 32 ∧ peeled.nextHop ≠ cfg.nodeId ∧
      ((s.sessions.decryptMessage P frame).1.encryptMessage P cfg.session peeled.nextHop TYPE_RELAY
        (relayPayload source contentType peeled.inner) FLAG_RELAY entropy).2 = some frame' := by
  unfold handleRelay at h ⊢
  cases hopened : s.sessions.decryptMessage P frame with
  | mk sessions opened =>
    cases opened with
    | none => simp [hopened] at h
    | some msg =>
      obtain ⟨packetType, payload⟩ := msg
      simp only [hopened] at h ⊢
      split_ifs at h with htype
      obtain rfl : packetType = TYPE_RELAY := not_not.mp htype
      cases hsession : sessions.getSessionById sessionId with
      | none => simp [hsession] at h
      | some session =>
        simp only [hsession] at h
        split at h
        · cases h
        · rename_i source contentType peeled hrelay
          split_ifs at h with hfinal hself
          refine ⟨payload, source, contentType, peeled, rfl, ?_, hfinal, hself, forward_forwarded h⟩
          simp only [hrelay, hfinal, hself, htype, if_false]
          rw [← hrelay]
          exact openRelay_congr forward_peers

end DataPath

/-! ### What `tx_loop` sends -/

namespace DataPath

variable {P : Primitives H} {O : OnionPrimitives} {cfg : TunnelConfig} {s : DataPath H} {route : Route}
  {raw frame : List UInt8} {entropy : Entropy} {endpoint : Endpoint}

theorem txDirect_sent (h : (s.txDirect P cfg route raw entropy).2 = .sent frame endpoint) :
    cfg.packetFitsRoute raw.length DIRECT_ROUTE_DEPTH = true ∧
    (s.sessions.encryptMessage P cfg.session route.destination TYPE_DATA raw 0 entropy).2 = some frame := by
  unfold txDirect at h
  split_ifs at h with hfits
  refine ⟨by simpa using hfits, ?_⟩
  cases hendpoint : s.endpointOf route.destination with
  | none => simp [hendpoint] at h
  | some target =>
    simp only [hendpoint, encrypt] at h
    split at h
    · cases h
    · rename_i hseal
      cases h
      exact (Prod.mk.inj hseal).2

theorem txRelay_sent (h : (s.txRelay P O cfg route raw entropy).2 = .sent frame endpoint) :
    cfg.packetFitsRoute raw.length route.path.length = true ∧
    ∃ keys onion, s.pathKeys route.path = some keys ∧
      (buildOnion O cfg.keypair route.path keys raw s.onionCounter).2 = some onion ∧
      (s.sessions.encryptMessage P cfg.session route.nextHop TYPE_RELAY
        (relayPayload cfg.nodeId RELAY_CONTENT_IP_PACKET onion) FLAG_RELAY entropy).2 = some frame := by
  unfold txRelay at h
  split_ifs at h with hdeep hfits
  refine ⟨by simpa using hfits, ?_⟩
  cases hkeys : s.pathKeys route.path with
  | none => simp [hkeys] at h
  | some keys =>
    simp only [hkeys] at h
    split at h
    · cases h
    rename_i counter onion honion
    refine ⟨keys, onion, rfl, congrArg Prod.snd honion, ?_⟩
    simp only [encrypt] at h
    split at h
    · cases h
    rename_i hseal
    split at h
    · cases h
    · cases h
      exact (Prod.mk.inj hseal).2

/-- The frames `tx_loop` sends: the packet fits the route to its destination and is sealed for the first hop,
along a relayed route in an onion for all of them. -/
theorem txPacket_sent (h : (s.txPacket P O cfg raw entropy).2 = .sent frame endpoint) :
    ∃ parsed route, IPPacket.parse raw = some parsed ∧
      s.routing.findRoute (IPAddress.fromIpv4 parsed.destIp) = some route ∧
      cfg.packetFitsRoute raw.length route.path.length = true ∧
      (route.type = .direct ∧
          (s.sessions.encryptMessage P cfg.session route.nextHop TYPE_DATA raw 0 entropy).2 = some frame ∨
        route.type = .relay ∧ ∃ keys onion, s.pathKeys route.path = some keys ∧
          (buildOnion O cfg.keypair route.path keys raw s.onionCounter).2 = some onion ∧
          (s.sessions.encryptMessage P cfg.session route.nextHop TYPE_RELAY
            (relayPayload cfg.nodeId RELAY_CONTENT_IP_PACKET onion) FLAG_RELAY entropy).2 = some frame) := by
  unfold txPacket at h
  cases hparse : IPPacket.parse raw with
  | none => simp [hparse] at h
  | some parsed =>
    simp only [hparse] at h
    split_ifs at h with hmulticast hbroadcast
    cases hroute : s.routing.findRoute (IPAddress.fromIpv4 parsed.destIp) with
    | none => simp [hroute] at h
    | some route =>
      have hvalid := s.routing.invariant.valid route (RoutingEngine.mem_of_findRoute hroute)
      simp only [hroute] at h
      refine ⟨parsed, route, rfl, hroute, ?_⟩
      split_ifs at h with hdirect
      · obtain ⟨hnext, hpath⟩ := hvalid.direct hdirect
        obtain ⟨hfits, hseal⟩ := txDirect_sent h
        rw [hpath, hnext]
        exact ⟨hfits, Or.inl ⟨hdirect, hseal⟩⟩
      · obtain ⟨hfits, hsealed⟩ := txRelay_sent h
        exact ⟨hfits, Or.inr ⟨hvalid.direct_or_relay.resolve_left hdirect, hsealed⟩⟩

end DataPath

/-! ### Frames and the underlay -/

theorem FitsUnderlay.relaysTo {P : Primitives H} {O : OnionPrimitives} {underlayMtu bucketSize : Nat}
    {frame frame' : List UInt8} (h : FitsUnderlay underlayMtu bucketSize frame)
    (hstep : RelaysTo P O underlayMtu bucketSize frame frame') : FitsUnderlay underlayMtu bucketSize frame' := by
  obtain ⟨cfg, allow, s, now, sessionId, entropy, endpoint, -, hbucket, hforwarded⟩ := hstep
  obtain ⟨payload, source, contentType, peeled, hopened, hpeeled, -, -, hseal⟩ :=
    DataPath.handleRelay_forwarded hforwarded
  have hread : payload.length + 48 ≤ frame.length := SessionManager.length_decryptMessage hopened
  have hlayer := DataPath.length_openRelay hpeeled
  exact h.reseal hbucket (by omega) hseal

theorem FitsUnderlay.relayed {P : Primitives H} {O : OnionPrimitives} {underlayMtu bucketSize : Nat}
    {frame frame' : List UInt8} (h : FitsUnderlay underlayMtu bucketSize frame)
    (hrelayed : Relation.ReflTransGen (RelaysTo P O underlayMtu bucketSize) frame frame') :
    FitsUnderlay underlayMtu bucketSize frame' := by
  induction hrelayed with
  | refl => exact h
  | tail _ hstep ih => exact ih.relaysTo hstep

/-- No frame of an admitted packet exceeds the underlay, from the source to the last hop. -/
theorem data_frame_within_underlay (P : Primitives H) (O : OnionPrimitives) (cfg : TunnelConfig)
    (raw : List UInt8) (routeDepth : Nat) (hfits : cfg.packetFitsRoute raw.length routeDepth = true)
    (payload : List UInt8) (hpayload : cfg.IsDataPayload O raw routeDepth payload) (mgr : SessionManager H)
    (peerId : NodeId) (packetType flags : UInt8) (entropy : Entropy) (frame : List UInt8)
    (hframe : (mgr.encryptMessage P cfg.session peerId packetType payload flags entropy).2 = some frame)
    (frame' : List UInt8)
    (hrelayed : Relation.ReflTransGen (RelaysTo P O cfg.underlayMtu cfg.session.paddingBucketSize) frame frame') :
    frame'.length + OUTER_IPV4_UDP_OVERHEAD ≤ cfg.underlayMtu :=
  ((FitsUnderlay.of_encryptMessage hframe (TunnelConfig.payload_of_fits hfits hpayload)).relayed hrelayed).fits

/-- The configuration of node `key`, with the defaults. -/
def sampleTunnel (key : UInt8) : TunnelConfig where
  session := .sample key
  publicKey := FixedBytes.copy 32 [key]

/-- A UDP packet without payload from 10.1.0.1 to 10.20.0.1. -/
def samplePacket : List UInt8 := [69, 0, 0, 20, 0, 0, 0, 0, 64, 17, 102, 195, 10, 1, 0, 1, 10, 20, 0, 1]

/-- The frame node 1 sends to node 2 for a packet along the path to node 3. -/
def sampleRelayFrame : List UInt8 :=
  let hops := [FixedBytes.copy 32 [2], FixedBytes.copy 32 [3]]
  let onion := (buildOnion Mesh.clearOnion (sampleTunnel 1).keypair hops hops samplePacket 0).2.getD []
  (Link.sampleLink.sender.encryptMessage clearPrimitives (.sample 1) (FixedBytes.copy 32 [2]) TYPE_RELAY
    (relayPayload (sampleTunnel 1).nodeId RELAY_CONTENT_IP_PACKET onion) FLAG_RELAY (some fun _ => 0)).2.getD []

/-- Node 2, with a session to either side. -/
def sampleRelay : DataPath ClearHandshake where
  peers := ((({} : PeerManager).upsert 1 (FixedBytes.copy 32 [1]) (FixedBytes.copy 32 [1]) none true).1.upsert 1
    (FixedBytes.copy 32 [3]) (FixedBytes.copy 32 [3]) (some {}) true).1
  sessions := Link.sampleLink.receiver.establish (.sample 2) 0 (FixedBytes.copy 32 [3]) 8
    ⟨FixedBytes.copy 32 [5], FixedBytes.copy 32 [6]⟩ true

/-- The frame node 2 passes on to node 3. -/
def sampleForwardedFrame : List UInt8 :=
  match (sampleRelay.handleRelay clearPrimitives Mesh.clearOnion (sampleTunnel 2) (fun _ _ => true) 2
      sampleRelayFrame 7 (some fun _ => 0)).2 with
  | .forwarded frame _ => frame
  | _ => []

theorem data_frame_within_underlay_forwarded :
    sampleRelayFrame.length = 236 ∧ sampleForwardedFrame.length = 172 ∧
    RelaysTo clearPrimitives Mesh.clearOnion 1500 64 sampleRelayFrame sampleForwardedFrame ∧
    sampleForwardedFrame.length + OUTER_IPV4_UDP_OVERHEAD ≤ 1500 := by
  let hops : List NodeId := [FixedBytes.copy 32 [2], FixedBytes.copy 32 [3]]
  have hstep : RelaysTo clearPrimitives Mesh.clearOnion 1500 64 sampleRelayFrame sampleForwardedFrame :=
    ⟨sampleTunnel 2, fun _ _ => true, sampleRelay, 2, 7, some fun _ => 0, {}, rfl, rfl, by decide +kernel⟩
  have honion : ((buildOnion Mesh.clearOnion (sampleTunnel 1).keypair hops hops samplePacket 0).2).isSome := by
    decide +kernel
  refine ⟨by decide +kernel, by decide +kernel, hstep, ?_⟩
  exact data_frame_within_underlay clearPrimitives Mesh.clearOnion (sampleTunnel 1) samplePacket 2
    (by decide) _ (Or.inr ⟨by decide, hops, hops, 0, _, rfl, Option.some_get honion, rfl⟩)
    Link.sampleLink.sender (FixedBytes.copy 32 [2]) TYPE_RELAY FLAG_RELAY (some fun _ => 0) sampleRelayFrame
    (by decide +kernel) sampleForwardedFrame (Relation.ReflTransGen.single hstep)

/-! ### Packets and the session buffer -/

/-- `Tunnel::start` takes the configuration: the overlay has an MTU at the largest depth, and the transport
takes the datagram budget. -/
def TunnelConfig.accepted (cfg : TunnelConfig) : Bool :=
  let budget := cfg.underlayMtu - OUTER_IPV4_UDP_OVERHEAD
  (cfg.routeMtu cfg.maxRelayDepth).isSome && budget ≠ 0 && budget ≤ IPV4_UDP_MAX_DATAGRAM_SIZE

theorem TunnelConfig.fits_direct {cfg : TunnelConfig} (h : cfg.accepted = true) :
    isSupportedSessionPaddingBucket cfg.session.paddingBucketSize = true ∧ DIRECT_ROUTE_DEPTH ≤ cfg.maxRelayDepth ∧
    cfg.packetFitsRoute (cfg.underlayMtu - (75 + cfg.session.paddingBucketSize)) DIRECT_ROUTE_DEPTH = true := by
  simp only [accepted, Bool.and_eq_true] at h
  obtain ⟨mtu, hmtu⟩ := Option.isSome_iff_exists.mp h.1.1
  obtain ⟨hmax, hlow, hhigh, hbucket, hmin, hsum⟩ := safeOverlayMtu_eq_some_iff.mp hmtu
  refine ⟨hbucket, hlow, packetFitsRoute_iff.mpr ⟨_, safeOverlayMtu_eq_some_iff.mpr ?_, le_rfl⟩⟩
  have hdirect : relayOverhead DIRECT_ROUTE_DEPTH = 0 := rfl
  exact ⟨hmax, le_rfl, by decide, hbucket, by omega, by omega⟩

/-- Which admitted packets can be sealed: those whose payload the session buffer holds. Every admitted
packet can be sealed exactly when the underlay leaves none that is larger. -/
theorem admitted_packet_sendable_iff {P : Primitives H} (hP : P.aead.Correct) (cfg : TunnelConfig)
    (hcfg : cfg.accepted = true) (mgr : SessionManager H) (peerId : NodeId)
    (hsession : (mgr.findSessionLocked peerId).isSome) (entropy : Entropy) (hentropy : entropy.isSome)
    (packetType flags : UInt8) (hflags : flags &&& ~~~PACKET_KNOWN_FLAGS = 0) :
    (∀ O raw routeDepth payload, cfg.packetFitsRoute raw.length routeDepth = true →
      cfg.IsDataPayload O raw routeDepth payload →
        ((mgr.encryptMessage P cfg.session peerId packetType payload flags entropy).2.isSome ↔
          raw.length + relayOverhead routeDepth ≤ 4092)) ∧
    ((∀ O raw routeDepth payload, routeDepth ≤ cfg.maxRelayDepth →
      cfg.packetFitsRoute raw.length routeDepth = true → cfg.IsDataPayload O raw routeDepth payload →
        (mgr.encryptMessage P cfg.session peerId packetType payload flags entropy).2.isSome) ↔
      cfg.underlayMtu ≤ 4167 + cfg.session.paddingBucketSize) := by
  obtain ⟨hbucket, hlow, hlargest⟩ := TunnelConfig.fits_direct hcfg
  have hseal := SessionManager.encryptMessage_isSome_iff hP hbucket hsession hentropy packetType hflags
  simp only [SESSION_MAX_LOGICAL_PAYLOAD_SIZE, SESSION_MAX_PAYLOAD_SIZE, SESSION_LENGTH_PREFIX_SIZE] at hseal
  refine ⟨fun O raw routeDepth payload hfits hpayload => ?_, fun hall => ?_, fun hunderlay => ?_⟩
  · rw [hseal, hpayload.length]
  · -- the largest packet of a direct route
    have := hall ⟨fun _ _ => none, fun _ => none, P.aead⟩
      (List.replicate (cfg.underlayMtu - (75 + cfg.session.paddingBucketSize)) 0) DIRECT_ROUTE_DEPTH _ hlow
      (by rw [List.length_replicate]; exact hlargest) (Or.inl ⟨rfl, rfl⟩)
    rw [hseal, List.length_replicate] at this
    omega
  · intro O raw routeDepth payload _ hfits hpayload
    rw [hseal]
    have := TunnelConfig.payload_of_fits hfits hpayload
    omega

/-- Node 1 on an underlay with jumbo frames, and a peer it reaches directly. -/
def jumboTunnel : TunnelConfig := { sampleTunnel 1 with underlayMtu := 9000 }

def directDataPath : DataPath ClearHandshake where
  peers := (({} : PeerManager).upsert 1 (FixedBytes.copy 32 [2]) (FixedBytes.copy 32 [2]) (some {}) true).1
  routing := (({} : RoutingEngine).addRoute {
    network := IPAddress.fromIpv4 0x0a140000, prefixLength := 16, type := .direct,
    nextHop := FixedBytes.copy 32 [2], destination := FixedBytes.copy 32 [2], path := [FixedBytes.copy 32 [2]] }).1
  sessions := Link.sampleLink.sender

/-- A UDP packet of 5000 bytes. -/
def jumboPacket : List UInt8 :=
  [69, 0, 19, 136, 0, 0, 0, 0, 64, 17, 83, 79, 10, 1, 0, 1, 10, 20, 0, 1] ++ List.replicate 4980 0

/-- An accepted configuration admits the packet, peer and session are there, and it is dropped. -/
theorem admitted_packet_unsendable :
    jumboTunnel.accepted = true ∧ jumboTunnel.packetFitsRoute jumboPacket.length DIRECT_ROUTE_DEPTH = true ∧
    (directDataPath.endpointOf (FixedBytes.copy 32 [2])).isSome ∧
    (directDataPath.sessions.findSessionLocked (FixedBytes.copy 32 [2])).isSome ∧
    (directDataPath.txPacket clearPrimitives Mesh.clearOnion jumboTunnel jumboPacket (some fun _ => 0)).2
      = .encryptFailed := by
  decide +kernel

theorem admitted_packet_sendable_default :
    (sampleTunnel 1).accepted = true ∧
    (directDataPath.sessions.encryptMessage clearPrimitives (.sample 1) (FixedBytes.copy 32 [2]) TYPE_DATA
      samplePacket 0 (some fun _ => 0)).2.isSome :=
  ⟨by decide, (admitted_packet_sendable_iff clearAead_correct (sampleTunnel 1) (by decide) directDataPath.sessions
    (FixedBytes.copy 32 [2]) (by decide) (some fun _ => 0) rfl TYPE_DATA 0 rfl).2.mpr (by decide)
    Mesh.clearOnion samplePacket 1 samplePacket (by decide) (by decide) (Or.inl ⟨rfl, rfl⟩)⟩

end Aegis
