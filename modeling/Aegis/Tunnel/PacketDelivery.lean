import Aegis.Packet.OnionPeel
import Aegis.Peer.Liveness
import Aegis.Routing.Operations
import Aegis.Session.NonceUniqueness
import Aegis.Session.ReplaySpec
import Aegis.Tunnel.DataPath

/-!
# From adapter to adapter

The receiving half of the data path: `rx_callback` hands a frame to `handle_data_frame` or `handle_relay`, and
`inject_inner_packet` checks what comes out before the adapter gets it.

With `tx_loop` and the relays this is the whole way of a packet (`carry`). Where the sessions along a route
match, each node that passes the packet on knows the next one, and every hop agrees with the source on a key,
the packet comes out at the last hop unchanged; its adapter gets it if the packet is no longer than the overlay
MTU there and ends where its header says (`sent_packet_injected`).
-/

namespace Aegis

variable {H : Type}

inductive InnerPacketStatus where
  | valid
  | invalid
  | oversize
deriving DecidableEq

def validateInnerIpv4Packet (data : List UInt8) (mtu : Nat) : InnerPacketStatus :=
  if mtu < data.length then .oversize
  else
    match IPPacket.parse data with
    | none => .invalid
    | some packet => if packet.totalLength.toNat ≠ data.length then .invalid else .valid

namespace TunnelConfig

/-- `overlay_mtu_`. `Tunnel::start` refuses a configuration without one. -/
def overlayMtu (cfg : TunnelConfig) : Nat := (cfg.routeMtu cfg.maxRelayDepth).getD 0

/-- The packet `inject_inner_packet` hands to the adapter. -/
def injectInnerPacket (cfg : TunnelConfig) (packet : List UInt8) : Option (List UInt8) :=
  if validateInnerIpv4Packet packet cfg.overlayMtu = .valid then some packet else none

end TunnelConfig

/-- How `rx_callback` ends on a frame of the data path. -/
inductive RxOutcome where
  | dropped
  | injectInnerPacket (packet : List UInt8)
  | pathProbe (source : NodeId) (payload : List UInt8)
  | forwarded (frame : List UInt8) (endpoint : Endpoint)
deriving DecidableEq

def RelayOutcome.received : RelayOutcome → RxOutcome
  | .dropped => .dropped
  | .delivered source contentType inner =>
    if contentType = RELAY_CONTENT_IP_PACKET then .injectInnerPacket inner else .pathProbe source inner
  | .forwarded frame endpoint => .forwarded frame endpoint

namespace DataPath

def handleDataFrame (P : Primitives H) (s : DataPath H) (now : Time) (data : List UInt8) (header : PacketHeader)
    (sender : Endpoint) : DataPath H × RxOutcome :=
  match s.sessions.decryptMessage P data with
  | (sessions, none) => ({ s with sessions }, .dropped)
  | (sessions, some msg) =>
    if msg.packetType ≠ TYPE_DATA then ({ s with sessions }, .dropped)
    else
      match sessions.getSessionById header.sessionId with
      | none => ({ s with sessions }, .injectInnerPacket msg.payload)
      | some session =>
        ({ s with sessions, peers := s.peers.markSeen now session.peerId (some sender) },
          .injectInnerPacket msg.payload)

/-- `rx_callback`; frames of other types do not concern the data path. -/
def rxCallback (P : Primitives H) (O : OnionPrimitives) (cfg : TunnelConfig) (allow : NodeId → Nat → Bool)
    (s : DataPath H) (now : Time) (data : List UInt8) (sender : Endpoint) (entropy : Entropy) :
    DataPath H × RxOutcome :=
  match parsePacketHeader (data.take PACKET_HEADER_SIZE) with
  | none => (s, .dropped)
  | some header =>
    if header.version ≠ PACKET_VERSION ∨ header.reserved ≠ 0 ∨ header.flags &&& ~~~PACKET_KNOWN_FLAGS ≠ 0 then
      (s, .dropped)
    else if header.packetType = TYPE_DATA then s.handleDataFrame P now data header sender
    else if header.packetType = TYPE_RELAY then
      let (s, outcome) := s.handleRelay P O cfg allow now data header.sessionId entropy
      (s, outcome.received)
    else (s, .dropped)

end DataPath

/-! ### The way of a packet -/

/-- A node when a frame gets to it. -/
structure Hop (H : Type) where
  cfg : TunnelConfig
  state : DataPath H
  allow : NodeId → Nat → Bool
  now : Time
  sender : Endpoint
  entropy : Entropy

namespace Hop

def receive (P : Primitives H) (O : OnionPrimitives) (hop : Hop H) (frame : List UInt8) : RxOutcome :=
  (hop.state.rxCallback P O hop.cfg hop.allow hop.now frame hop.sender hop.entropy).2

/-- What the adapter of the last hop gets when the frame and what is forwarded for it go from hop to hop. -/
def carry (P : Primitives H) (O : OnionPrimitives) : List (Hop H) → List UInt8 → Option (List UInt8)
  | [], _ => none
  | hop :: hops, frame =>
    match hop.receive P O frame with
    | .injectInnerPacket packet => if hops.isEmpty then hop.cfg.injectInnerPacket packet else none
    | .forwarded frame' _ => carry P O hops frame'
    | _ => none

/-- A session with the hop that matches the one there; the number of the next frame is new. -/
def Linked (mgr : SessionManager H) (next : Hop H) : Prop :=
  ∃ sending receiving, mgr.findSessionLocked next.cfg.nodeId = some sending ∧
    next.state.sessions.findSessionByIdLocked sending.id = some receiving ∧
    receiving.recvKey = sending.sendKey ∧ sending.sendSeq.toNat < 2 ^ 32 ∧
    receiving.checkReplay sending.sendSeq = true

/-- The hop has the key of the source, and agrees with it on a secret. -/
structure Knows (O : OnionPrimitives) (source : TunnelConfig) (hop : Hop H) : Prop where
  nonzero : hop.cfg.nodeId ≠ FixedBytes.zero 32
  agrees : O.Agrees source.keypair hop.cfg.keypair
  publicKey : (hop.state.peers.peers.find? source.nodeId).map (·.publicKey) = some source.publicKey

structure PassesTo (hop next : Hop H) : Prop where
  linked : Linked hop.state.sessions next
  endpoint : (hop.state.endpointOf next.cfg.nodeId).isSome
  allow : ∀ sender size, hop.allow sender size = true
  entropy : hop.entropy.isSome
  bucket : isSupportedSessionPaddingBucket hop.cfg.session.paddingBucketSize = true

/-- The frame opens as the message, under a session the hop finds again afterwards. -/
def Opens (P : Primitives H) (hop : Hop H) (frame : List UInt8) (message : DecryptedMessage) : Prop :=
  ∃ header session, parseFrame frame = some header ∧ header.packetType = message.packetType ∧
    (hop.state.sessions.decryptMessage P frame).2 = some message ∧
    (hop.state.sessions.decryptMessage P frame).1.findSessionByIdLocked header.sessionId = some session

end Hop

theorem parseFrame_accepts {data : List UInt8} {header : PacketHeader} (h : parseFrame data = some header) :
    ¬(header.version ≠ PACKET_VERSION ∨ header.reserved ≠ 0 ∨ header.flags &&& ~~~PACKET_KNOWN_FLAGS ≠ 0) := by
  unfold parseFrame at h
  split_ifs at h
  obtain ⟨header', -, h⟩ := Option.bind_eq_some_iff.mp h
  split_ifs at h with hfields
  exact Option.some.inj h ▸ hfields

theorem SessionManager.findSessionLocked_decryptMessage (P : Primitives H) {mgr : SessionManager H}
    (data : List UInt8) {peerId : NodeId} {session : SessionState} (h : mgr.findSessionLocked peerId = some session) :
    ∃ session', (mgr.decryptMessage P data).1.findSessionLocked peerId = some session' ∧
      session'.id = session.id ∧ session'.sendKey = session.sendKey ∧ session'.sendSeq = session.sendSeq := by
  rcases decryptMessage_cases P mgr data with hsame | ⟨header, found, -, hlive, -, -, hresult⟩
  · rw [hsame]
    exact ⟨session, h, rfl, rfl, rfl⟩
  · rw [hresult, storeSessionById]
    cases hindex : mgr.sessionToPeer.find? header.sessionId with
    | none => cases mgr.retired.find? header.sessionId <;> exact ⟨session, h, rfl, rfl, rfl⟩
    | some owner =>
      by_cases howner : peerId = owner
      · subst howner
        rw [findSessionByIdLocked, hindex] at hlive
        obtain rfl : session = found := Option.some.inj (h.symm.trans hlive)
        have hestablished := (Option.filter_eq_some_iff.mp h).2
        refine ⟨session.updateReplay header.sequenceNumber.toUInt64, ?_, by simp, by simp, by simp⟩
        simp [findSessionLocked, hestablished]
      · refine ⟨session, ?_, rfl, rfl, rfl⟩
        simpa [findSessionLocked, howner] using h

theorem map_publicKey_markSeen (peers : PeerManager) (now : Time) (seen id : NodeId) :
    ((peers.markSeen now seen none).peers.find? id).map (·.publicKey) = (peers.peers.find? id).map (·.publicKey) := by
  rw [PeerManager.markSeen_eq_modify, PeerManager.find?_modify]
  split_ifs
  · rw [Option.map_map]
    rfl
  · rfl

theorem bind_endpoint_markSeen (peers : PeerManager) (now : Time) (seen id : NodeId) :
    ((peers.markSeen now seen none).peers.find? id).bind (·.endpoint) = (peers.peers.find? id).bind (·.endpoint) := by
  rw [PeerManager.markSeen_eq_modify, PeerManager.find?_modify]
  split_ifs
  · rw [Option.bind_map]
    rfl
  · rfl

theorem openRelay_relayPayload {O : OnionPrimitives} {cfg : TunnelConfig} {s : DataPath H} {source : NodeId}
    {key : X25519Key} {blob : List UInt8} {peeled : PeeledOnion}
    (hkey : (s.peers.peers.find? source).map (·.publicKey) = some key)
    (hpeel : peelOnion O cfg.keypair key blob = some peeled) :
    s.openRelay O cfg (relayPayload source RELAY_CONTENT_IP_PACKET blob)
      = some (source, RELAY_CONTENT_IP_PACKET, peeled) := by
  obtain ⟨peer, hpeer, rfl⟩ := Option.map_eq_some_iff.mp hkey
  have hlength := length_peelOnion hpeel
  have hdrop : source.1.drop 33 = [] := List.drop_of_length_le (by rw [source.2]; decide)
  rw [DataPath.openRelay, if_neg (by
    simp only [relayPayload, List.length_append, source.2, List.length_cons, NODE_ID_SIZE, RELAY_CONTENT_TYPE_SIZE]
    omega)]
  simp [relayPayload, NODE_ID_SIZE, RELAY_CONTENT_TYPE_SIZE, source.2, List.drop_append, hdrop, FixedBytes.copy_self,
    hpeer, hpeel]

namespace Hop

variable {P : Primitives H} {O : OnionPrimitives} {hop next : Hop H} {mgr : SessionManager H}
  {frame payload : List UInt8}

theorem Linked.after_decryptMessage (h : Linked mgr next) (data : List UInt8) :
    Linked (mgr.decryptMessage P data).1 next := by
  obtain ⟨sending, receiving, hfind, hrest⟩ := h
  obtain ⟨session, hsession, hid, hkey, hseq⟩ := SessionManager.findSessionLocked_decryptMessage P data hfind
  exact ⟨session, receiving, hsession, by rwa [hid, hkey, hseq]⟩

theorem Linked.opens (hP : P.aead.Correct) (h : Linked mgr next) {cfg : SessionConfig} {packetType flags : UInt8}
    (hflags : flags &&& ~~~PACKET_KNOWN_FLAGS = 0) {entropy : Entropy} (hentropy : entropy.isSome)
    (hseal : (mgr.encryptMessage P cfg next.cfg.nodeId packetType payload flags entropy).2 = some frame) :
    next.Opens P frame ⟨packetType, payload⟩ := by
  obtain ⟨sending, receiving, hsending, hreceiving, hkey, hseq, hfresh⟩ := h
  obtain ⟨hbucket, hsize, -⟩ := SessionManager.length_encryptMessage hseal
  have hmessage : Outgoing.Sendable ⟨packetType, flags, payload, entropy⟩ := ⟨hsize, hflags, hentropy⟩
  have hread := SessionManager.decryptMessage_encryptMessage hP hbucket hsending hreceiving hkey hseq hfresh
    hmessage hseal
  obtain ⟨-, frame', header, hencrypt, -, -, hparse, htype, hid, -⟩ :=
    SessionManager.encryptMessage_opens hP hbucket hsending hmessage
  obtain rfl : frame' = frame := Option.some.inj ((congrArg Prod.snd hencrypt).symm.trans hseal)
  exact ⟨header, _, hparse, htype, hread,
    SessionState.findSessionByIdLocked_decryptMessage hparse (hid ▸ hreceiving)⟩

theorem receive_data (h : hop.Opens P frame ⟨TYPE_DATA, payload⟩) :
    hop.receive P O frame = .injectInnerPacket payload := by
  obtain ⟨header, session, hparse, htype, hread, hfind⟩ := h
  rw [receive, DataPath.rxCallback, parsePacketHeader_of_parseFrame hparse]
  dsimp only
  rw [if_neg (parseFrame_accepts hparse), if_pos htype, DataPath.handleDataFrame]
  cases hopened : hop.state.sessions.decryptMessage P frame with
  | mk sessions message =>
    rw [hopened] at hread hfind
    obtain rfl : message = _ := hread
    simp only [ne_eq, not_true_eq_false, if_false, SessionManager.getSessionById_of_find hfind]

/-- A relay frame that peels, at a hop that knows its source. -/
theorem receive_relay {source nextHop : NodeId} {key : X25519Key} {blob inner : List UInt8}
    (h : hop.Opens P frame ⟨TYPE_RELAY, relayPayload source RELAY_CONTENT_IP_PACKET blob⟩)
    (hkey : (hop.state.peers.peers.find? source).map (·.publicKey) = some key)
    (hpeel : peelOnion O hop.cfg.keypair key blob = some ⟨nextHop, inner⟩) (hnext : nextHop ≠ hop.cfg.nodeId) :
    ∃ (s : DataPath H) (sender : NodeId), s.sessions = (hop.state.sessions.decryptMessage P frame).1 ∧
      (∀ id, s.endpointOf id = hop.state.endpointOf id) ∧
      hop.receive P O frame = if nextHop = FixedBytes.zero 32 then .injectInnerPacket inner
        else (s.forward P hop.cfg hop.allow sender source RELAY_CONTENT_IP_PACKET ⟨nextHop, inner⟩
          hop.entropy).2.received := by
  obtain ⟨header, session, hparse, htype, hread, hfind⟩ := h
  have hother : header.packetType ≠ TYPE_DATA := htype ▸ (by decide : TYPE_RELAY ≠ TYPE_DATA)
  rw [receive, DataPath.rxCallback, parsePacketHeader_of_parseFrame hparse]
  dsimp only
  rw [if_neg (parseFrame_accepts hparse), if_neg hother, if_pos htype, DataPath.handleRelay]
  cases hopened : hop.state.sessions.decryptMessage P frame with
  | mk sessions message =>
    rw [hopened] at hread hfind
    obtain rfl : message = _ := hread
    simp only [ne_eq, not_true_eq_false, if_false, SessionManager.getSessionById_of_find hfind]
    rw [openRelay_relayPayload (by rwa [map_publicKey_markSeen]) hpeel]
    dsimp only
    refine ⟨{ hop.state with sessions, peers := hop.state.peers.markSeen hop.now session.peerId none },
      session.peerId, rfl, bind_endpoint_markSeen hop.state.peers hop.now session.peerId, ?_⟩
    split_ifs
    · rfl
    · rfl

/-- An onion goes along its hops; hop `i` is handed `blobs i`. -/
theorem carry_relay (hP : P.aead.Correct) {source : TunnelConfig} {hops : List (Hop H)} {first destination : Hop H}
    (blobs : Nat → List UInt8)
    (hpeels : ∀ i hop, hops[i]? = some hop → peelOnion O hop.cfg.keypair source.publicKey (blobs i)
      = some ⟨(hops.map (·.cfg.nodeId)).getD (i + 1) (FixedBytes.zero 32), blobs (i + 1)⟩)
    (hids : (hops.map (·.cfg.nodeId)).Nodup) (hknows : ∀ hop ∈ hops, hop.Knows O source)
    (hchain : hops.IsChain PassesTo) (hfirst : hops.head? = some first) (hlast : hops.getLast? = some destination)
    (hsize : RELAY_SOURCE_OVERHEAD + (blobs 0).length ≤ SESSION_MAX_LOGICAL_PAYLOAD_SIZE)
    (hopens : first.Opens P frame ⟨TYPE_RELAY, relayPayload source.nodeId RELAY_CONTENT_IP_PACKET (blobs 0)⟩) :
    carry P O hops frame = destination.cfg.injectInnerPacket (blobs hops.length) := by
  induction hops generalizing first frame blobs with
  | nil => cases hfirst
  | cons hop hops ih =>
    obtain rfl : hop = first := Option.some.inj hfirst
    obtain ⟨hknown, hknows⟩ := List.forall_mem_cons.mp hknows
    cases hops with
    | nil =>
      obtain rfl : hop = destination := Option.some.inj hlast
      obtain ⟨s, sender, -, -, hreceive⟩ :=
        receive_relay hopens hknown.publicKey (hpeels 0 hop rfl) (Ne.symm hknown.nonzero)
      simp [carry, hreceive]
    | cons next hops =>
      obtain ⟨hpass, hchain⟩ := List.isChain_cons_cons.mp hchain
      obtain ⟨hother, hids⟩ := List.nodup_cons.mp hids
      have hne : next.cfg.nodeId ≠ hop.cfg.nodeId :=
        fun heq => hother (List.mem_map.mpr ⟨next, List.mem_cons_self, heq⟩)
      have hpeel : peelOnion O hop.cfg.keypair source.publicKey (blobs 0) = some ⟨next.cfg.nodeId, blobs 1⟩ :=
        hpeels 0 hop rfl
      obtain ⟨s, sender, hsessions, hendpoints, hreceive⟩ := receive_relay hopens hknown.publicKey hpeel hne
      have hshorter : (blobs 1).length + ONION_OVERHEAD = (blobs 0).length := length_peelOnion hpeel
      have hsize' : RELAY_SOURCE_OVERHEAD + (blobs 1).length ≤ SESSION_MAX_LOGICAL_PAYLOAD_SIZE := by omega
      have hflags : FLAG_RELAY &&& ~~~PACKET_KNOWN_FLAGS = 0 := by decide
      have hlinked : Linked (hop.state.sessions.decryptMessage P frame).1 next :=
        hpass.linked.after_decryptMessage frame
      obtain ⟨sending, -, hsending, -⟩ := id hlinked
      obtain ⟨frame', hseal⟩ := Option.isSome_iff_exists.mp ((SessionManager.encryptMessage_isSome_iff hP hpass.bucket
        (Option.isSome_of_eq_some hsending) hpass.entropy TYPE_RELAY hflags
        (relayPayload source.nodeId RELAY_CONTENT_IP_PACKET (blobs 1))).mpr (by rwa [length_relayPayload]))
      obtain ⟨endpoint, hendpoint⟩ := Option.isSome_iff_exists.mp hpass.endpoint
      have hforward : (s.forward P hop.cfg hop.allow sender source.nodeId RELAY_CONTENT_IP_PACKET
          ⟨next.cfg.nodeId, blobs 1⟩ hop.entropy).2 = .forwarded frame' endpoint := by
        simp [DataPath.forward, DataPath.encrypt, hendpoints, hendpoint, hpass.allow, hsessions, hseal]
      have hnonzero : next.cfg.nodeId ≠ FixedBytes.zero 32 := (hknows next List.mem_cons_self).nonzero
      rw [carry, hreceive, if_neg hnonzero, hforward]
      exact ih (fun i => blobs (i + 1)) (fun i hop hhop => hpeels (i + 1) hop hhop) hids hknows hchain rfl
        (by simpa using hlast) hsize' (hlinked.opens hP hflags hpass.entropy hseal)

end Hop

theorem injectInnerPacket_eq {cfg : TunnelConfig} {raw : List UInt8} {parsed : IPPacket}
    (h : IPPacket.parse raw = some parsed) :
    cfg.injectInnerPacket raw
      = if raw.length ≤ cfg.overlayMtu ∧ parsed.totalLength.toNat = raw.length then some raw else none := by
  refine if_congr ?_ rfl rfl
  simp only [validateInnerIpv4Packet, h, ← not_lt]
  split_ifs <;> simp_all

theorem pathKeys_eq {s : DataPath H} {hops : List (Hop H)}
    (h : ∀ hop ∈ hops, (s.peers.peers.find? hop.cfg.nodeId).map (·.publicKey) = some hop.cfg.publicKey) :
    s.pathKeys (hops.map (·.cfg.nodeId)) = some (hops.map (·.cfg.publicKey)) := by
  unfold DataPath.pathKeys
  induction hops with
  | nil => rfl
  | cons hop hops ih =>
    obtain ⟨hhop, hhops⟩ := List.forall_mem_cons.mp h
    simp [hhop, ih hhops]

theorem Route.Valid.head?_path {route : Route} (h : route.Valid) : route.path.head? = some route.nextHop := by
  rcases h.direct_or_relay with hdirect | hrelay
  · obtain ⟨hnext, hpath⟩ := h.direct hdirect
    rw [hpath, hnext]
    rfl
  · exact h.head? hrelay

/-- A packet that `tx_loop` sends along a route, directly or through relays, comes out unchanged at the last hop.
The adapter there gets it exactly if it is no longer than the overlay MTU of that node and has no bytes behind
the total length in its header. -/
theorem sent_packet_injected (P : Primitives H) (O : OnionPrimitives) (hP : P.aead.Correct) (hO : O.aead.Correct)
    (cfg : TunnelConfig) (s : DataPath H) (raw frame : List UInt8) (entropy : Entropy) (hentropy : entropy.isSome)
    (endpoint : Endpoint) (hsent : (s.txPacket P O cfg raw entropy).2 = .sent frame endpoint)
    (parsed : IPPacket) (hparse : IPPacket.parse raw = some parsed) (route : Route)
    (hroute : s.routing.findRoute (IPAddress.fromIpv4 parsed.destIp) = some route) (hops : List (Hop H))
    (hpath : hops.map (·.cfg.nodeId) = route.path) (first destination : Hop H)
    (hfirst : hops.head? = some first) (hlast : hops.getLast? = some destination)
    (hkeys : ∀ hop ∈ hops, (s.peers.peers.find? hop.cfg.nodeId).map (·.publicKey) = some hop.cfg.publicKey)
    (hknows : ∀ hop ∈ hops, hop.Knows O cfg) (hlinked : Hop.Linked s.sessions first)
    (hchain : hops.IsChain Hop.PassesTo) :
    Hop.carry P O hops frame
      = if raw.length ≤ destination.cfg.overlayMtu ∧ parsed.totalLength.toNat = raw.length then some raw
        else none := by
  rw [← injectInnerPacket_eq hparse]
  have hvalid := s.routing.invariant.valid route (RoutingEngine.mem_of_findRoute hroute)
  have hnext : first.cfg.nodeId = route.nextHop := by
    have hhead := hvalid.head?_path
    rw [← hpath, List.head?_map, hfirst] at hhead
    exact Option.some.inj hhead
  obtain ⟨parsed', route', hparse', hroute', -, hsealed⟩ := DataPath.txPacket_sent hsent
  obtain rfl : parsed = parsed' := Option.some.inj (hparse.symm.trans hparse')
  obtain rfl : route = route' := Option.some.inj (hroute.symm.trans hroute')
  rw [← hnext] at hsealed
  rcases hsealed with ⟨hdirect, hseal⟩ | ⟨hrelay, keys, onion, hpathKeys, honion, hseal⟩
  · obtain ⟨-, hsingle⟩ := hvalid.direct hdirect
    rw [hsingle] at hpath
    obtain ⟨hop, rfl, -⟩ := List.map_eq_singleton_iff.mp hpath
    obtain rfl : hop = first := Option.some.inj hfirst
    obtain rfl : hop = destination := Option.some.inj hlast
    have hopens := hlinked.opens hP (by decide) hentropy hseal
    simp [Hop.carry, Hop.receive_data hopens]
  · have hopens := hlinked.opens hP (by decide) hentropy hseal
    have hsize := (SessionManager.length_encryptMessage hseal).2.1
    have hnodup := (hvalid.relay hrelay).2.2.2
    rw [← hpath] at hpathKeys honion hnodup
    obtain rfl : _ = keys := Option.some.inj ((pathKeys_eq hkeys).symm.trans hpathKeys)
    let ends := hops.map fun hop => (hop.cfg.nodeId, hop.cfg.keypair)
    have hagree : ∀ hop ∈ ends, O.Agrees cfg.keypair hop.2 :=
      List.forall_mem_map.mpr fun hop hhop => (hknows hop hhop).agrees
    obtain ⟨blobs, hlastBlob, hlayers, hpeels⟩ :=
      sealLayers_peels hO hagree ends.length (Nat.le_refl _) raw s.onionCounter
    have hids : ends.map Prod.fst = hops.map (·.cfg.nodeId) := List.map_map
    have hpubkeys : (ends.map fun hop => hop.2.publicKey) = hops.map (·.cfg.publicKey) := List.map_map
    have hlength : ends.length = hops.length := List.length_map _
    rw [hids, hpubkeys] at hlayers
    rw [hids] at hpeels
    rw [hlength] at hlayers hpeels hlastBlob
    obtain rfl : blobs 0 = onion := by
      rw [buildOnion] at honion
      split_ifs at honion
      rw [List.length_map, hlayers 0 (Nat.zero_le _)] at honion
      exact Option.some.inj honion
    rw [length_relayPayload] at hsize
    rw [← hlastBlob]
    refine Hop.carry_relay hP blobs (fun i hop hhop => ?_) hnodup hknows hchain hfirst hlast hsize hopens
    exact hpeels i (List.getElem?_eq_some_iff.mp hhop).1 (hop.cfg.nodeId, hop.cfg.keypair) (by simp [ends, hhop])

/-- Node 1, with a route through node 2 to node 3. -/
def sampleSource : DataPath ClearHandshake where
  peers := ((({} : PeerManager).upsert 1 (FixedBytes.copy 32 [2]) (FixedBytes.copy 32 [2]) (some {}) true).1.upsert 1
    (FixedBytes.copy 32 [3]) (FixedBytes.copy 32 [3]) none true).1
  routing := (({} : RoutingEngine).addRoute {
    network := IPAddress.fromIpv4 0x0a140000, prefixLength := 16, type := .relay, nextHop := FixedBytes.copy 32 [2],
    destination := FixedBytes.copy 32 [3], path := [FixedBytes.copy 32 [2], FixedBytes.copy 32 [3]] }).1
  sessions := Link.sampleLink.sender

def sampleHop (key : UInt8) (state : DataPath ClearHandshake) : Hop ClearHandshake :=
  ⟨sampleTunnel key, state, fun _ _ => true, 2, {}, some fun _ => 0⟩

def sampleDestination : DataPath ClearHandshake where
  peers := (({} : PeerManager).upsert 1 (FixedBytes.copy 32 [1]) (FixedBytes.copy 32 [1]) none true).1
  sessions := ({} : SessionManager ClearHandshake).establish (.sample 3) 0 (FixedBytes.copy 32 [2]) 8
    ⟨FixedBytes.copy 32 [6], FixedBytes.copy 32 [5]⟩ false

theorem sent_packet_injected_relayed :
    Hop.carry clearPrimitives Mesh.clearOnion [sampleHop 2 sampleRelay, sampleHop 3 sampleDestination] sampleRelayFrame
      = some samplePacket := by
  have hroute : ∃ route, sampleSource.routing.findRoute (IPAddress.fromIpv4 0x0a140001) = some route ∧
      route.path = [FixedBytes.copy 32 [2], FixedBytes.copy 32 [3]] := ⟨_, by rfl, by rfl⟩
  obtain ⟨route, hroute, hpath⟩ := hroute
  have hrelay : (sampleHop 2 sampleRelay).Knows Mesh.clearOnion (sampleTunnel 1) :=
    ⟨by decide +kernel, ⟨_, rfl, by decide +kernel, rfl⟩, by decide +kernel⟩
  have hlast : (sampleHop 3 sampleDestination).Knows Mesh.clearOnion (sampleTunnel 1) :=
    ⟨by decide +kernel, ⟨_, rfl, by decide +kernel, rfl⟩, by decide +kernel⟩
  refine (sent_packet_injected clearPrimitives Mesh.clearOnion clearAead_correct clearAead_correct (sampleTunnel 1)
    sampleSource samplePacket sampleRelayFrame (some fun _ => 0) rfl {} (by decide +kernel) _ rfl route hroute
    [sampleHop 2 sampleRelay, sampleHop 3 sampleDestination] hpath.symm _ _ rfl rfl (by decide +kernel)
    (by simp [hrelay, hlast]) ?_ ?_).trans (by decide +kernel)
  · exact ⟨_, _, rfl, rfl, rfl, by decide, by decide +kernel⟩
  · refine List.isChain_cons_cons.mpr ⟨⟨⟨_, _, rfl, rfl, rfl, by decide, by decide +kernel⟩, by decide +kernel,
      fun _ _ => rfl, rfl, rfl⟩, List.isChain_singleton _⟩

end Aegis
