import Aegis.Tunnel.Overlay

/-!
# The advertised table

`Tunnel::build_advertised_peers`: every peer is advertised by id, key, one hop list and one record for each
unexpired route to it. The records come from all these routes, in table order, while the hop list is that of
the first of them: a record stands for a route whose path the entry carries only if that route's path is the
first one's.

The local address is the typed one; its fallback to the two legacy configuration fields is left out.
-/

namespace Aegis

/-- What a node says about itself. -/
structure Advertiser where
  nodeId : NodeId
  publicKey : X25519Key
  localAddress : IPAddress := {}
  localPrefixLength : UInt8 := 24

namespace Advertiser

/-- The seconds a learned route has left; a route that is not learned keeps its lease. -/
def remainingLease (now : Time) (r : Route) : Int :=
  if r.type = .relay ∧ r.validatedAt ≠ 0 then
    let elapsed := Int.tdiv (now - r.validatedAt) 1000
    if 0 < elapsed then r.lease - elapsed else r.lease
  else r.lease

def advertisedRecord (now : Time) (r : Route) : AdvertisedPrefix where
  network := r.network
  prefixLength := r.prefixLength.toUInt8
  sequenceNumber := r.sequenceNumber
  leaseSeconds := UInt32.ofInt (remainingLease now r)
  metric := r.metric

/-- One iteration of the loop over the routes, for the peer whose entry is being built. -/
def advertiseRoute (now : Time) (ap : AdvertisedPeer) (r : Route) : AdvertisedPeer :=
  if r.destination ≠ ap.nodeId then ap
  else if learnedRouteLeaseExpired r now then ap
  else { ap with
    prefixes := ap.prefixes ++ [advertisedRecord now r]
    path := if ap.path = [] then r.path else ap.path }

def advertisedEntry (now : Time) (routes : List Route) (peer : Peer) : AdvertisedPeer :=
  routes.foldl (advertiseRoute now) { nodeId := peer.nodeId, publicKey := peer.publicKey }

def selfEntry (node : Advertiser) : AdvertisedPeer where
  nodeId := node.nodeId
  publicKey := node.publicKey
  prefixes := [{
    network := (IPPrefix.of node.localAddress node.localPrefixLength).address
    prefixLength := node.localPrefixLength }]

def buildAdvertisedPeers (node : Advertiser) (now : Time) (s : Overlay) : List AdvertisedPeer :=
  node.selfEntry ::
    ((s.peers.allPeers.filter fun peer => peer.nodeId ≠ node.nodeId).map
      (advertisedEntry now s.routing.routes))

/-- The routes a peer is advertised with. -/
def backing (now : Time) (routes : List Route) (id : NodeId) : List Route :=
  routes.filter fun r => r.destination = id && !learnedRouteLeaseExpired r now

theorem mem_backing {now : Time} {routes : List Route} {id : NodeId} {r : Route} :
    r ∈ backing now routes id ↔ r ∈ routes ∧ r.destination = id ∧ learnedRouteLeaseExpired r now = false := by
  simp [backing]

theorem toNat_prefixLength_advertisedRecord {re : RoutingEngine} {now : Time} {r : Route} (hr : r ∈ re.routes) :
    (advertisedRecord now r).prefixLength.toNat = r.prefixLength.toNat := by
  have hshape := (re.invariant.valid r hr).shape
  rw [Route.wellShaped, Bool.and_eq_true, validPrefixLength, decide_eq_true_eq] at hshape
  have hwidth : r.network.bitWidth ≤ 128 := by
    unfold IPAddress.bitWidth
    split <;> decide
  rw [advertisedRecord, UInt32.toNat_toUInt8]
  exact Nat.mod_eq_of_lt (by omega)

theorem foldl_advertiseRoute {now : Time} {routes : List Route} (ap : AdvertisedPeer)
    (hpath : ∀ r ∈ routes, r.path ≠ []) :
    routes.foldl (advertiseRoute now) ap =
      { nodeId := ap.nodeId
        publicKey := ap.publicKey
        path := if ap.path = [] then ((backing now routes ap.nodeId).head?.map Route.path).getD [] else ap.path
        prefixes := ap.prefixes ++ (backing now routes ap.nodeId).map (advertisedRecord now) } := by
  induction routes generalizing ap with
  | nil =>
    cases ap
    simp [backing]
  | cons r routes ih =>
    have hhead : r.path ≠ [] := hpath r List.mem_cons_self
    rw [List.foldl_cons, ih _ fun r' hr' => hpath r' (List.mem_cons_of_mem _ hr')]
    by_cases hdestination : r.destination = ap.nodeId
    · cases hexpired : learnedRouteLeaseExpired r now with
      | true => simp [advertiseRoute, backing, hdestination, hexpired]
      | false =>
        by_cases hempty : ap.path = [] <;>
          simp [advertiseRoute, backing, hdestination, hexpired, hempty, hhead]
    · simp [advertiseRoute, backing, hdestination]

theorem advertisedEntry_eq (now : Time) (re : RoutingEngine) (peer : Peer) :
    advertisedEntry now re.routes peer =
      { nodeId := peer.nodeId
        publicKey := peer.publicKey
        path := ((backing now re.routes peer.nodeId).head?.map Route.path).getD []
        prefixes := (backing now re.routes peer.nodeId).map (advertisedRecord now) } := by
  have hpath : ∀ r ∈ re.routes, r.path ≠ [] := fun r hr => (re.invariant.valid r hr).path_ne_nil
  simpa [advertisedEntry] using foldl_advertiseRoute { nodeId := peer.nodeId, publicKey := peer.publicKey } hpath

theorem identity_advertisedEntry (now : Time) (re : RoutingEngine) (peer : Peer) :
    (advertisedEntry now re.routes peer).nodeId = peer.nodeId ∧
      (advertisedEntry now re.routes peer).publicKey = peer.publicKey := by
  rw [advertisedEntry_eq]
  exact ⟨rfl, rfl⟩

theorem mem_buildAdvertisedPeers {node : Advertiser} {now : Time} {s : Overlay} {p : AdvertisedPeer}
    (hp : p ∈ node.buildAdvertisedPeers now s) (hne : p.nodeId ≠ node.nodeId) :
    ∃ id peer, s.peers.peers.find? id = some peer ∧ p = advertisedEntry now s.routing.routes peer := by
  rcases List.mem_cons.mp hp with rfl | hp
  · exact absurd rfl hne
  · obtain ⟨peer, hpeer, rfl⟩ := List.mem_map.mp hp
    obtain ⟨id, hid⟩ := PeerManager.mem_allPeers.mp (List.mem_of_mem_filter hpeer)
    exact ⟨id, peer, hid, rfl⟩

/-- What backs an advertised record. In every table, each record of the entry for another peer is the record
of an unexpired route to that peer, with its prefix, length, sequence number and metric; the entry's hop list
is the path of the first unexpired route to the peer in table order; and if all of these have one path, the
record and the hop list are those of a single route. -/
theorem advertised_record_backed (node : Advertiser) (now : Time) (s : Overlay) (p : AdvertisedPeer)
    (hp : p ∈ node.buildAdvertisedPeers now s) (hne : p.nodeId ≠ node.nodeId) (record : AdvertisedPrefix)
    (hrecord : record ∈ p.prefixes) :
    (∃ r ∈ s.routing.routes, r.destination = p.nodeId ∧ learnedRouteLeaseExpired r now = false ∧
      record.network = r.network ∧ record.prefixLength.toNat = r.prefixLength.toNat ∧
      record.sequenceNumber = r.sequenceNumber ∧ record.metric = r.metric) ∧
    (∃ first, s.routing.routes.find? (fun r => r.destination = p.nodeId && !learnedRouteLeaseExpired r now) =
      some first ∧ p.path = first.path) ∧
    ((∀ r ∈ s.routing.routes, ∀ r' ∈ s.routing.routes, r.destination = p.nodeId → r'.destination = p.nodeId →
        learnedRouteLeaseExpired r now = false → learnedRouteLeaseExpired r' now = false → r.path = r'.path) →
      ∃ r ∈ s.routing.routes, r.destination = p.nodeId ∧ learnedRouteLeaseExpired r now = false ∧
        record.network = r.network ∧ record.prefixLength.toNat = r.prefixLength.toNat ∧
        record.sequenceNumber = r.sequenceNumber ∧ record.metric = r.metric ∧ r.path = p.path) := by
  obtain ⟨id, peer, -, rfl⟩ := mem_buildAdvertisedPeers hp hne
  rw [advertisedEntry_eq] at hrecord ⊢
  obtain ⟨r, hr, rfl⟩ := List.mem_map.mp hrecord
  obtain ⟨hmem, hdestination, hexpired⟩ := mem_backing.mp hr
  have hlength : (advertisedRecord now r).prefixLength.toNat = r.prefixLength.toNat :=
    toNat_prefixLength_advertisedRecord hmem
  have hfirst : ∃ first, s.routing.routes.find? (fun r => r.destination = peer.nodeId &&
      !learnedRouteLeaseExpired r now) = some first ∧
      ((backing now s.routing.routes peer.nodeId).head?.map Route.path).getD [] = first.path := by
    cases hfind : s.routing.routes.find? (fun r => r.destination = peer.nodeId &&
        !learnedRouteLeaseExpired r now) with
    | none =>
      have := List.find?_eq_none.mp hfind r hmem
      simp [hdestination, hexpired] at this
    | some first =>
      refine ⟨first, rfl, ?_⟩
      rw [backing, List.head?_filter, hfind]
      rfl
  refine ⟨⟨r, hmem, hdestination, hexpired, rfl, hlength, rfl, rfl⟩, hfirst, fun hsame => ?_⟩
  obtain ⟨first, hfind, hpath⟩ := hfirst
  have hfirst := List.find?_some hfind
  simp only [Bool.and_eq_true, decide_eq_true_eq, Bool.not_eq_true'] at hfirst
  refine ⟨r, hmem, hdestination, hexpired, rfl, hlength, rfl, rfl, ?_⟩
  rw [hpath]
  exact hsame r hmem first (List.mem_of_find?_eq_some hfind) hdestination hfirst.1 hexpired hfirst.2

/-! ### A peer with a direct and a relayed prefix -/

open Overlay (sampleNodeId)

def sampleAdvertiser : Advertiser where
  nodeId := sampleNodeId 1
  publicKey := sampleNodeId 1

/-- Peer 3 is configured with `10.0.3.0/24`, and peer 2 advertises that it reaches peer 3 and `10.0.9.0/24`. -/
def twoPrefixes : List OverlayAction :=
  [.upsert 1 (sampleNodeId 3) (sampleNodeId 3) none true,
    .installConfigured 2 {
      nodeId := sampleNodeId 3
      publicKey := sampleNodeId 3
      allowedIps := [⟨.fromIpv4 0x0a000300, 24⟩] },
    .merge { self := sampleNodeId 1, sender := sampleNodeId 2, now := 3, validatedAt := 3 }
      [{ nodeId := sampleNodeId 3, publicKey := sampleNodeId 3,
          prefixes := [{ network := .fromIpv4 0x0a000900, prefixLength := 24 }] }]]

/-- The second record is sent with the hop list of the direct route, which no route over its prefix has. -/
theorem advertised_record_unbacked :
    let s := Overlay.run (fun key => key) {} {} twoPrefixes
    ∃ p ∈ sampleAdvertiser.buildAdvertisedPeers 4 s, p.nodeId = sampleNodeId 3 ∧
      ∃ record ∈ p.prefixes, ∀ r ∈ s.routing.routes, r.destination = p.nodeId →
        r.network = record.network → r.prefixLength.toNat = record.prefixLength.toNat → r.path ≠ p.path := by
  decide +kernel

theorem advertised_record_backed_direct :
    let s := Overlay.run (fun key => key) {} {} (twoPrefixes.take 2)
    let p : AdvertisedPeer :=
      { nodeId := sampleNodeId 3, publicKey := sampleNodeId 3, path := [sampleNodeId 3],
        prefixes := [{ network := .fromIpv4 0x0a000300, prefixLength := 24, metric := 1 }] }
    ∃ first, s.routing.routes.find? (fun r => r.destination = p.nodeId && !learnedRouteLeaseExpired r 4) =
      some first ∧ p.path = first.path :=
  (advertised_record_backed sampleAdvertiser 4 (Overlay.run (fun key => key) {} {} (twoPrefixes.take 2)) _
    (by decide +kernel) (by decide) { network := .fromIpv4 0x0a000300, prefixLength := 24, metric := 1 }
    (by decide)).2.1

end Advertiser

end Aegis
