import Aegis.Packet.Mtu
import Aegis.Tunnel.Overlay

/-!
# The paths of learned routes

A merge checks an advertised hop list against `PEER_TABLE_MAX_PATH_HOPS` and then puts the sender in front
of it, while `build_onion` and the MTU contract bound the whole path by `ONION_MAX_HOPS`, which is the same
number. A list at the bound so becomes a route that nothing can be sent along.
-/

namespace Aegis

open Overlay (sampleNodeId)

/-- A packet can be sent along the route: `build_onion` takes the path, with a key for every hop, and the
path's depth has a wire overhead under every padding bucket. -/
def Route.Sendable (r : Route) : Prop :=
  (∀ pathPubkeys packet, pathPubkeys.length = r.path.length → packet ≠ [] →
    onionArguments r.path pathPubkeys packet = true) ∧
  ∀ bucketSize, isSupportedSessionPaddingBucket bucketSize = true →
    (wireOverheadForRouteDepth r.path.length bucketSize).isSome

theorem Route.sendable_iff (r : Route) : r.Sendable ↔ r.path ≠ [] ∧ r.path.length ≤ ONION_MAX_HOPS := by
  constructor
  · rintro ⟨hOnion, -⟩
    have h := hOnion (List.replicate r.path.length (FixedBytes.zero 32)) [0] (by simp) (by simp)
    simp only [onionArguments, Bool.and_eq_true, Bool.not_eq_true', List.isEmpty_eq_false_iff,
      decide_eq_true_eq] at h
    exact ⟨h.1.1.1, h.1.2⟩
  · rintro ⟨hne, hlength⟩
    refine ⟨fun pathPubkeys packet hkeys hpacket => ?_, fun bucketSize hbucket => ?_⟩
    · simp [onionArguments, hne, hkeys, hlength, hpacket]
    · exact (wireOverheadForRouteDepth_isSome_iff _ _).mpr
        ⟨List.length_pos_of_ne_nil hne, hlength, hbucket⟩

theorem AdvertisedPeer.length_relayPath_le_iff (p : AdvertisedPeer) (sender : NodeId) :
    (p.relayPath sender).length ≤ ONION_MAX_HOPS ↔ p.path.length < ONION_MAX_HOPS := by
  unfold relayPath hops ONION_MAX_HOPS
  split_ifs with hempty
  · simp [hempty]
  · simp only [List.length_cons]
    omega

/-- The shape of the path of a route that a merge installs, and which of them can be used for sending:
those from hop lists below the bound. -/
theorem learned_path_sendable_iff (hashPublicKey : X25519Key → NodeId) (ctx : MergeContext)
    (pm : PeerManager) (re : RoutingEngine) (advertised : List AdvertisedPeer) (r : Route)
    (hr : r ∈ (mergePeerTable hashPublicKey ctx pm re advertised).routing.routes) (hnew : r ∉ re.routes) :
    r.type = .relay ∧ r.path.head? = some ctx.sender ∧ r.path.getLast? = some r.destination ∧
    r.path.Nodup ∧ ctx.self ∉ r.path ∧
    ∃ p ∈ advertised, r.destination = p.nodeId ∧ r.path = ctx.sender :: p.hops ∧
      (r.path.length ≤ ONION_MAX_HOPS ∧ r.Sendable ↔ p.path.length < ONION_MAX_HOPS) := by
  rcases mem_mergePeerTable hr with hold | ⟨p, hp, record, hlearned, -⟩
  · exact absurd hold hnew
  have hpath := hlearned.path
  have hdestination := hlearned.destination
  have hok := hlearned.pathOk
  simp only [AdvertisedPeer.pathOk, Bool.and_eq_true, decide_eq_true_eq] at hok
  obtain ⟨⟨hlast, hself⟩, hnodup⟩ := hok
  refine ⟨hlearned.type, by rw [hpath]; rfl, by rw [hpath, hdestination]; exact hlast, by rw [hpath]; exact hnodup,
    by rw [hpath]; exact hself, p, hp, hdestination, hpath, ?_⟩
  rw [Route.sendable_iff, hpath, p.length_relayPath_le_iff]
  exact ⟨And.left, fun h => ⟨h, List.cons_ne_nil _ _, h⟩⟩

def samplePathContext : MergeContext where
  self := sampleNodeId 1
  sender := sampleNodeId 2
  now := 3
  validatedAt := 3

/-- An entry for a peer at the end of a hop list. -/
def samplePathEntry (hops : List UInt8) : AdvertisedPeer where
  nodeId := sampleNodeId 10
  publicKey := sampleNodeId 10
  path := hops.map sampleNodeId
  prefixes := [{ network := IPAddress.fromIpv4 0x0a140000, prefixLength := 24 }]

/-- From a hop list at the bound a merge installs a route of nine hops. -/
theorem learned_path_unsendable :
    let m := mergePeerTable (fun key => key) samplePathContext {} {} [samplePathEntry [3, 4, 5, 6, 7, 8, 9, 10]]
    m.stats.routesInstalled = 1 ∧ m.stats.malformed = 0 ∧
    ∃ r ∈ m.routing.routes, r.type = .relay ∧ r.path.length = 9 ∧ ¬r.Sendable := by
  simp only [Route.sendable_iff]
  decide +kernel

theorem learned_path_sendable_sample :
    ∃ r ∈ (mergePeerTable (fun key => key) samplePathContext {} {} [samplePathEntry [8, 9, 10]]).routing.routes,
      r.Sendable := by
  obtain ⟨r, hr⟩ : ∃ r, r ∈ (mergePeerTable (fun key => key) samplePathContext {} {}
      [samplePathEntry [8, 9, 10]]).routing.routes := by
    apply List.exists_mem_of_ne_nil
    decide +kernel
  obtain ⟨-, -, -, -, -, p, hp, -, -, hiff⟩ := learned_path_sendable_iff (fun key => key) samplePathContext {} {}
    [samplePathEntry [8, 9, 10]] r hr List.not_mem_nil
  obtain rfl := List.mem_singleton.mp hp
  exact ⟨r, hr, (hiff.mpr (by decide)).2⟩

end Aegis
