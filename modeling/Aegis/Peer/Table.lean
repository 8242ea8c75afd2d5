import Aegis.Peer.Manager
import Aegis.Routing.Engine

/-!
# Merging gossip

`merge_peer_table` of `peer/peer_table.cpp`: an advertised table, sent by an adjacent peer, is folded into
the peer table and the routing engine. Every entry is checked and written on its own: an entry with a bad
identity changes nothing, an accepted one is recorded without an endpoint, and each of its prefix records
that is well formed and not stale becomes a relay route through the sender. Records of one entry are
handled in order against the table that the records before them left.

The log lines are left out, and so are addresses of a family other than the two, which the decoder of
the table refuses.
-/

namespace Aegis

def PEER_TABLE_MAX_PATH_HOPS : Nat := 8
def PEER_TABLE_MAX_PREFIXES : Nat := 16

structure AdvertisedPrefix where
  network : IPAddress := {}
  prefixLength : UInt8 := 0
  sequenceNumber : UInt64 := 1
  leaseSeconds : UInt32 := 90
  metric : UInt32 := 0
deriving DecidableEq

structure AdvertisedPeer where
  nodeId : NodeId := FixedBytes.zero 32
  publicKey : X25519Key := FixedBytes.zero 32
  path : List NodeId := []
  prefixes : List AdvertisedPrefix := []
deriving DecidableEq

structure PeerTableMergeStats where
  accepted : Nat := 0
  peersChanged : Nat := 0
  routesInstalled : Nat := 0
  malformed : Nat := 0
  staleRejected : Nat := 0
  conflicting : Nat := 0
  capacityRejected : Nat := 0
deriving DecidableEq

def PeerTableMergeStats.changed (stats : PeerTableMergeStats) : Bool :=
  0 < stats.peersChanged || 0 < stats.routesInstalled

/-- The tables a merge writes, and its counters. -/
structure Merge where
  peers : PeerManager
  routing : RoutingEngine
  stats : PeerTableMergeStats := {}
deriving DecidableEq

/-- Who merges whose table, and when: the receiving node, the adjacent peer that sent the table, the
time given to new peers and the time given to refreshed routes. -/
structure MergeContext where
  self : NodeId
  sender : NodeId
  now : Time
  validatedAt : Time

namespace AdvertisedPrefix

/-- The record does not fit its address family or the limits on freshness data. -/
def malformed (record : AdvertisedPrefix) : Bool :=
  record.network.bitWidth < record.prefixLength.toNat || record.sequenceNumber = 0 ||
    record.leaseSeconds = 0 || ROUTE_MAX_LEASE < record.leaseSeconds.toNat ||
    ROUTE_MAX_METRIC ≤ record.metric

def canonical (record : AdvertisedPrefix) : IPAddress := (IPPrefix.of record.network record.prefixLength).address

end AdvertisedPrefix

namespace AdvertisedPeer

/-- The advertised hop list, which is the peer itself where the list is empty. -/
def hops (p : AdvertisedPeer) : List NodeId := if p.path = [] then [p.nodeId] else p.path

/-- The candidate relay path: through the sender, then along the advertised hop list. -/
def relayPath (p : AdvertisedPeer) (sender : NodeId) : List NodeId := sender :: p.hops

/-- The path ends at the peer, visits no node twice and does not pass through the receiver. -/
def pathOk (p : AdvertisedPeer) (ctx : MergeContext) : Bool :=
  (p.relayPath ctx.sender).getLast? = some p.nodeId &&
    ctx.self ∉ p.relayPath ctx.sender && (p.relayPath ctx.sender).Nodup

/-- The relay route a record of the entry stands for. -/
def route (p : AdvertisedPeer) (ctx : MergeContext) (record : AdvertisedPrefix) : Route where
  network := record.network
  prefixLength := record.prefixLength.toUInt32
  type := .relay
  nextHop := ctx.sender
  destination := p.nodeId
  path := p.relayPath ctx.sender
  origin := p.nodeId
  advertiser := ctx.sender
  sequenceNumber := record.sequenceNumber
  lease := record.leaseSeconds.toNat
  metric := record.metric + 1
  validatedAt := ctx.validatedAt

end AdvertisedPeer

/-- The highest sequence number among the learned routes of an origin over a prefix, zero without one. -/
def highestSequence (routes : List Route) (origin : NodeId) (network : IPAddress) (prefixLength : UInt32) :
    UInt64 :=
  routes.foldl (fun highest candidate =>
    if RoutingEngine.isLearned origin network prefixLength candidate then max highest candidate.sequenceNumber
    else highest) 0

/-- What the loop over the records of one entry changes. -/
structure RecordMerge where
  routing : RoutingEngine
  stats : PeerTableMergeStats
  malformedRouting : Bool
deriving DecidableEq

/-- Install a route that is not a refresh; a newer sequence number first clears the older ones. -/
def installLearned (s : RecordMerge) (route : Route) (highest : UInt64) : RecordMerge :=
  let routing :=
    if highest < route.sequenceNumber then
      (s.routing.removeOlderLearnedRoutes route.origin route.network route.prefixLength
        route.sequenceNumber).1
    else s.routing
  let (routing, added) := routing.addRoute route
  if added then
    { s with routing := routing, stats.routesInstalled := s.stats.routesInstalled + 1 }
  else
    { s with routing := routing, stats.capacityRejected := s.stats.capacityRejected + 1 }

/-- One iteration of the loop over the records of an accepted entry. -/
def mergeRecord (ctx : MergeContext) (p : AdvertisedPeer) (s : RecordMerge) (record : AdvertisedPrefix) :
    RecordMerge :=
  if record.malformed then { s with malformedRouting := true }
  else if !p.pathOk ctx then s
  else
    let route := p.route ctx record
    let highest := highestSequence s.routing.routes p.nodeId record.canonical record.prefixLength.toUInt32
    if route.sequenceNumber < highest then
      { s with stats.staleRejected := s.stats.staleRejected + 1 }
    else
      match s.routing.routes.find? (fun r => r.key = route.candidate.key) with
      | some existing =>
        if route.sequenceNumber = existing.sequenceNumber then
          -- under a known sequence number only the lease is refreshed
          if route.path ≠ existing.path || route.metric ≠ existing.metric then
            { s with malformedRouting := true }
          else { s with routing := (s.routing.addRoute route).1 }
        else installLearned s route highest
      | none => installLearned s route highest

/-- The entry's identity is usable: its lists are within bounds and its key is the one its id names. -/
def AdvertisedPeer.identityOk (hashPublicKey : X25519Key → NodeId) (p : AdvertisedPeer) : Bool :=
  p.path.length ≤ PEER_TABLE_MAX_PATH_HOPS && p.prefixes.length ≤ PEER_TABLE_MAX_PREFIXES &&
    p.publicKey ≠ FixedBytes.zero 32 && hashPublicKey p.publicKey = p.nodeId

/-- The part of an iteration after the peer record is written. -/
def mergeRecords (ctx : MergeContext) (p : AdvertisedPeer) (s : Merge) : Merge :=
  let t := p.prefixes.foldl (mergeRecord ctx p)
    { routing := s.routing, stats := s.stats, malformedRouting := !p.pathOk ctx }
  { s with
    routing := t.routing
    stats := if t.malformedRouting then { t.stats with malformed := t.stats.malformed + 1 } else t.stats }

/-- One iteration of the loop over the advertised entries. -/
def mergeEntry (hashPublicKey : X25519Key → NodeId) (ctx : MergeContext) (s : Merge) (p : AdvertisedPeer) :
    Merge :=
  if p.nodeId = ctx.self ∨ p.nodeId = ctx.sender then s
  else if !p.identityOk hashPublicKey then { s with stats.malformed := s.stats.malformed + 1 }
  else
    match s.peers.upsert ctx.now p.nodeId p.publicKey none false with
    | (_, .identityConflict) => { s with stats.conflicting := s.stats.conflicting + 1 }
    | (_, .capacityRejected) => { s with stats.capacityRejected := s.stats.capacityRejected + 1 }
    | (peers, .updated) => mergeRecords ctx p { s with peers, stats.accepted := s.stats.accepted + 1 }
    | (peers, .inserted) | (peers, .identityBound) =>
      mergeRecords ctx p { s with
        peers
        stats.accepted := s.stats.accepted + 1
        stats.peersChanged := s.stats.peersChanged + 1 }

def mergePeerTable (hashPublicKey : X25519Key → NodeId) (ctx : MergeContext) (pm : PeerManager)
    (re : RoutingEngine) (advertised : List AdvertisedPeer) : Merge :=
  advertised.foldl (mergeEntry hashPublicKey ctx) { peers := pm, routing := re }

end Aegis
