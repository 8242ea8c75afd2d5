import Aegis.Lib.Run
import Aegis.Net.Ipv4
import Aegis.Packet.Header
import Aegis.Peer.Liveness
import Aegis.Session.Manager

/-!
# Presence broadcasts

`discovery/discovery.cpp`: a node broadcasts a frame in the clear with its ids and its endpoint, and keeps
the last frame it heard of every other node. `Tunnel::refresh_endpoints_from_discovery` takes the endpoints
of known peers from there.

Frames are not authenticated, so the results say exactly what a received datagram can do: a frame that is
read is the one its sender would have built (`presence_frames_canonical`), and a refresh moves the trusted
peers of the own network to the address the last such frame came from, and does nothing else
(`refresh_follows_last_presence`).
-/

namespace Aegis

def TYPE_DISCOVERY : UInt8 := 0x04
def DISCOVERY_PAYLOAD_SIZE : Nat := 102
def DISCOVERY_FRAME_SIZE : Nat := 16 + DISCOVERY_PAYLOAD_SIZE

/-- What a frame announces. -/
structure Presence where
  nodeId : NodeId
  networkId : NetworkId
  creatorNodeId : NodeId
  endpoint : Endpoint
deriving DecidableEq

/-- A presence in the table, with the address it came from. -/
structure ObservedPresence extends Presence where
  reachableEndpoint : Endpoint
  lastSeenMs : Time
deriving DecidableEq

def discoveryHeader : PacketHeader :=
  ⟨PACKET_VERSION, TYPE_DISCOVERY, 0, 0, 0, 0, UInt32.ofNat DISCOVERY_PAYLOAD_SIZE⟩

/-- The frame has room for an IPv4 address only. -/
def buildPresence (presence : Presence) : Option (List UInt8) :=
  if !presence.endpoint.isIpv4 then none
  else some (serializePacketHeader discoveryHeader ++ (presence.nodeId.1 ++ (presence.networkId.1 ++
    (presence.creatorNodeId.1 ++ (beBytes 4 (htonl presence.endpoint.ipv4Network).toNat ++
      beBytes 2 presence.endpoint.port.toNat)))))

def parsePresence (data : List UInt8) : Option Presence := do
  if data.length ≠ DISCOVERY_FRAME_SIZE then none
  else
    let (headerBytes, reader) ← (WireReader.mk data).readBytes PACKET_HEADER_SIZE
    let header ← parsePacketHeader headerBytes
    if header.version ≠ PACKET_VERSION ∨ header.packetType ≠ TYPE_DISCOVERY ∨ header.flags ≠ 0 ∨
        header.reserved ≠ 0 ∨ header.sessionId ≠ 0 ∨ header.sequenceNumber ≠ 0 ∨
        header.payloadLength ≠ UInt32.ofNat DISCOVERY_PAYLOAD_SIZE then none
    else
      let (nodeId, reader) ← reader.readArray 32
      let (networkId, reader) ← reader.readArray 32
      let (creatorNodeId, reader) ← reader.readArray 32
      let (ip, reader) ← reader.readU32
      let (port, reader) ← reader.readU16
      if !reader.finished then none
      else some ⟨nodeId, networkId, creatorNodeId, Endpoint.fromIpv4 (htonl ip) (htons port)⟩

/-- The announced address is the overlay's; the peer is reached at the address of the sender. -/
def parseReceivedPresence (data : List UInt8) (sender : Endpoint) (selfNodeId : NodeId) (observedAtMs : Time) :
    Option ObservedPresence :=
  match parsePresence data with
  | none => none
  | some presence =>
    if presence.nodeId = selfNodeId then none
    else some { presence with
      reachableEndpoint := ⟨sender.address, presence.endpoint.port⟩, lastSeenMs := observedAtMs }

/-- The discovery table of a node and its peer table. -/
structure DiscoveryNode where
  presences : SortedMap NodeId ObservedPresence := ∅
  peers : PeerManager := {}

/-- One turn of the loop of `refresh_endpoints_from_discovery`. -/
def refreshPeer (identity : Identity) (now : Time) (peers : PeerManager)
    (entry : NodeId × ObservedPresence) : PeerManager :=
  if entry.2.networkId ≠ identity.networkId then peers
  else match peers.peers.find? entry.1 with
    | none => peers
    | some peer =>
      if !peer.trusted then peers
      else if peer.endpoint = some entry.2.reachableEndpoint then peers
      else peers.updateEndpoint now entry.1 entry.2.reachableEndpoint

/-- What happens to the tables: a datagram arrives at the discovery port, some other part of the tunnel
changes the peers, or the maintenance loop refreshes their endpoints. -/
inductive DiscoveryEvent where
  | datagram (data : List UInt8) (sender : Endpoint) (nowMs : Time)
  | peersChanged (peers : PeerManager)
  | refresh (now : Time)

namespace DiscoveryNode

variable (identity : Identity)

def onPresence (s : DiscoveryNode) (data : List UInt8) (sender : Endpoint) (nowMs : Time) : DiscoveryNode :=
  match parseReceivedPresence data sender identity.nodeId nowMs with
  | none => s
  | some presence => { s with presences := s.presences.insert presence.nodeId presence }

def refreshEndpointsFromDiscovery (s : DiscoveryNode) (now : Time) : DiscoveryNode :=
  { s with peers := s.presences.entries.foldl (refreshPeer identity now) s.peers }

def step (s : DiscoveryNode) : DiscoveryEvent → DiscoveryNode
  | .datagram data sender nowMs => s.onPresence identity data sender nowMs
  | .peersChanged peers => { s with peers }
  | .refresh now => s.refreshEndpointsFromDiscovery identity now

end DiscoveryNode

/-! ### Frames -/

theorem eq_serialize_of_parsePacketHeader {bytes : List UInt8} {header : PacketHeader}
    (h : parsePacketHeader bytes = some header) : bytes = serializePacketHeader header := by
  simp only [parsePacketHeader, Option.bind_eq_bind, Option.bind_eq_some_iff] at h
  obtain ⟨⟨version, r₁⟩, h₁, ⟨packetType, r₂⟩, h₂, ⟨flags, r₃⟩, h₃, ⟨reserved, r₄⟩, h₄, ⟨sessionId, r₅⟩, h₅,
    ⟨sequenceNumber, r₆⟩, h₆, ⟨payloadLength, r₇⟩, h₇, h⟩ := h
  obtain ⟨hend, heq⟩ := Option.ite_none_right_eq_some.mp h
  cases heq
  have hbytes : bytes = _ := WireReader.rest_of_readU8 h₁
  rw [hbytes, WireReader.rest_of_readU8 h₂, WireReader.rest_of_readU8 h₃, WireReader.rest_of_readU8 h₄,
    WireReader.rest_of_readU32 h₅, WireReader.rest_of_readU32 h₆, WireReader.rest_of_readU32 h₇,
    List.isEmpty_iff.mp hend]
  simp [serializePacketHeader]

theorem parsePresence_build {presence : Presence} {data : List UInt8} (h : buildPresence presence = some data)
    (hunused : presence.endpoint.address.unusedZero = true) : parsePresence data = some presence := by
  obtain ⟨hipv4, heq⟩ := Option.ite_none_left_eq_some.mp h
  cases heq
  have hendpoint := Endpoint.fromIpv4_ipv4Network (by simpa using hipv4) hunused
  have hport := WireReader.readU16_beBytes presence.endpoint.port []
  rw [List.append_nil] at hport
  rw [parsePresence, if_neg (not_not.mpr (by simp [presence.nodeId.2, presence.networkId.2, presence.creatorNodeId.2,
      PACKET_HEADER_SIZE, DISCOVERY_FRAME_SIZE, DISCOVERY_PAYLOAD_SIZE])),
    WireReader.readBytes_append (length_serializePacketHeader discoveryHeader)]
  simp [parsePacketHeader_serialize, discoveryHeader, hport, WireReader.finished, hendpoint]

theorem buildPresence_parse {presence : Presence} {data : List UInt8} (h : parsePresence data = some presence) :
    buildPresence presence = some data ∧ presence.endpoint.address.unusedZero = true := by
  obtain ⟨-, h⟩ := Option.ite_none_left_eq_some.mp h
  simp only [Option.bind_eq_bind, Option.bind_eq_some_iff] at h
  obtain ⟨⟨headerBytes, r₁⟩, hfirst, header, hheader, h⟩ := h
  obtain ⟨hfields, h⟩ := Option.ite_none_left_eq_some.mp h
  simp only [Option.bind_eq_some_iff] at h
  obtain ⟨⟨nodeId, r₂⟩, h₂, ⟨networkId, r₃⟩, h₃, ⟨creatorNodeId, r₄⟩, h₄, ⟨ip, r₅⟩, h₅, ⟨port, r₆⟩, h₆, h⟩ := h
  obtain ⟨hend, heq⟩ := Option.ite_none_left_eq_some.mp h
  cases heq
  have hdata : data = _ := (WireReader.readBytes_eq_some hfirst).2
  have hbytes : headerBytes = serializePacketHeader header := eq_serialize_of_parsePacketHeader hheader
  have hheader' : header = discoveryHeader := by
    obtain ⟨version, packetType, flags, reserved, sessionId, sequenceNumber, payloadLength⟩ := header
    simpa [discoveryHeader, not_or] using hfields
  have hend : r₆.rest = [] := by simpa [WireReader.finished] using hend
  refine ⟨?_, Endpoint.unusedZero_fromIpv4 _ _⟩
  rw [hdata, hbytes, hheader', WireReader.readArray_eq_some h₂,
    WireReader.readArray_eq_some h₃, WireReader.readArray_eq_some h₄, WireReader.rest_of_readU32 h₅,
    WireReader.rest_of_readU16 h₆, hend]
  simp [buildPresence]

/-- A frame is read as a presence exactly if it is the frame of that presence, whose address is an IPv4 one
and nothing more. -/
theorem presence_frames_canonical (data : List UInt8) (presence : Presence) :
    parsePresence data = some presence ↔
      buildPresence presence = some data ∧ presence.endpoint.address.unusedZero = true :=
  ⟨buildPresence_parse, fun h => parsePresence_build h.1 h.2⟩

/-! ### The tables -/

/-- The last frame of the node, as far as the events have gone. -/
def hearPresence (identity : Identity) (id : NodeId) (last : Option ObservedPresence) :
    DiscoveryEvent → Option ObservedPresence
  | .datagram data sender nowMs =>
    match parseReceivedPresence data sender identity.nodeId nowMs with
    | none => last
    | some presence => if presence.nodeId = id then some presence else last
  | _ => last

/-- The peer as a refresh leaves it, with what was last heard of it. -/
def Peer.refreshed (identity : Identity) (now : Time) (last : Option ObservedPresence) (peer : Peer) : Peer :=
  match last with
  | none => peer
  | some presence =>
    if presence.networkId = identity.networkId ∧ peer.trusted ∧ peer.endpoint ≠ some presence.reachableEndpoint then
      { peer with path := .unknown, endpoint := some presence.reachableEndpoint, lastSeen := now }
    else peer

@[simp] theorem Peer.refreshed_none (identity : Identity) (now : Time) (peer : Peer) :
    Peer.refreshed identity now none peer = peer := rfl

theorem find?_refreshPeer (identity : Identity) (now : Time) (peers : PeerManager)
    (entry : NodeId × ObservedPresence) (id : NodeId) :
    (refreshPeer identity now peers entry).peers.find? id =
      (peers.peers.find? id).map (Peer.refreshed identity now (if entry.1 = id then some entry.2 else none)) := by
  obtain ⟨id', presence⟩ := entry
  by_cases hid : id' = id
  · subst hid
    cases hfind : peers.peers.find? id' with
    | none => simp only [refreshPeer, hfind, ite_self, Option.map_none]
    | some peer =>
      rw [if_pos rfl]
      by_cases hmove : presence.networkId = identity.networkId ∧ peer.trusted ∧
          peer.endpoint ≠ some presence.reachableEndpoint
      · simp [refreshPeer, Peer.refreshed, PeerManager.updateEndpoint, hfind, hmove]
      · rw [Option.map_some, Peer.refreshed, if_neg hmove, ← hfind]
        simp only [not_and_or, not_not] at hmove
        rcases hmove with hmove | hmove | hmove <;> simp [refreshPeer, hfind, hmove]
  · rw [if_neg hid, funext (Peer.refreshed_none identity now), Option.map_id']
    simp only [refreshPeer]
    split_ifs
    · rfl
    split
    · rfl
    split_ifs <;> simp [PeerManager.updateEndpoint, Ne.symm hid]

namespace DiscoveryNode

variable {identity : Identity}

theorem find?_presences (events : List DiscoveryEvent) (s : DiscoveryNode) (id : NodeId) :
    (events.foldl (step identity) s).presences.find? id =
      events.foldl (hearPresence identity id) (s.presences.find? id) := by
  induction events generalizing s with
  | nil => rfl
  | cons event events ih =>
    rw [List.foldl_cons, List.foldl_cons, ih]
    congr 1
    cases event with
    | datagram data sender nowMs =>
      simp only [step, onPresence, hearPresence]
      cases parseReceivedPresence data sender identity.nodeId nowMs with
      | none => rfl
      | some presence => simp [eq_comm]
    | peersChanged peers => rfl
    | refresh now => rfl

theorem find?_foldl_refreshPeer (now : Time) {id : NodeId} {last : Option ObservedPresence}
    {entries : List (NodeId × ObservedPresence)} (hnodup : (entries.map Prod.fst).Nodup)
    (hlast : ∀ presence, last = some presence ↔ (id, presence) ∈ entries) (peers : PeerManager) :
    (entries.foldl (refreshPeer identity now) peers).peers.find? id =
      (peers.peers.find? id).map (Peer.refreshed identity now last) := by
  induction entries generalizing peers last with
  | nil =>
    obtain rfl : last = none :=
      Option.eq_none_iff_forall_ne_some.mpr fun presence h => List.not_mem_nil ((hlast presence).mp h)
    exact Option.map_id'.symm
  | cons entry rest ih =>
    obtain ⟨hfresh, hnodup⟩ := List.nodup_cons.mp hnodup
    rw [List.foldl_cons]
    by_cases hid : entry.1 = id
    · -- the node does not occur again
      subst hid
      have hrest (presence : ObservedPresence) : none = some presence ↔ (entry.1, presence) ∈ rest :=
        iff_of_false nofun fun hmem => hfresh (List.mem_map.mpr ⟨_, hmem, rfl⟩)
      rw [ih hnodup hrest, find?_refreshPeer, if_pos rfl, (hlast entry.2).mpr List.mem_cons_self,
        funext (Peer.refreshed_none identity now), Option.map_id']
    · have hrest (presence : ObservedPresence) : last = some presence ↔ (id, presence) ∈ rest := by
        rw [hlast presence, List.mem_cons, or_iff_right fun h => hid (congrArg Prod.fst h).symm]
      rw [ih hnodup hrest, find?_refreshPeer, if_neg hid, funext (Peer.refreshed_none identity now), Option.map_id']

end DiscoveryNode

/-- After any events, a refresh keeps every peer but the trusted ones of which a frame with the own network's
id was heard. Those it moves to the address from which the last frame of the peer came and the port that is
announced there. -/
theorem refresh_follows_last_presence (identity : Identity) (peers : PeerManager)
    (events : List DiscoveryEvent) (now : Time) (id : NodeId) :
    let s := events.foldl (DiscoveryNode.step identity) { peers }
    (s.step identity (.refresh now)).peers.peers.find? id =
      (s.peers.peers.find? id).map (Peer.refreshed identity now (events.foldl (hearPresence identity id) none)) := by
  intro s
  have hlast : s.presences.find? id = events.foldl (hearPresence identity id) none :=
    DiscoveryNode.find?_presences events { peers } id
  exact DiscoveryNode.find?_foldl_refreshPeer now s.presences.nodup_keys
    (fun presence => by rw [← hlast, SortedMap.find?_eq_some_iff]) s.peers

end Aegis
