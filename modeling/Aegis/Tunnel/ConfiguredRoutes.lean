import Aegis.Tunnel.Overlay

/-!
# Installing configured routes

A configured prefix takes a place in the same table as learned routes, under the same two capacities.
`install_configured_routes` therefore succeeds for a prefix exactly when the peer's direct route is already
there or both capacities leave room at its turn, whoever took the places before; a refused route changes
nothing, and no later prefix makes room for it.
-/

namespace Aegis

/-- The table when the turn of the prefix after `front` comes. -/
def installedUpTo (peer : TunnelPeer) (now : Time) (re : RoutingEngine) (front : List AllowedIP) : RoutingEngine :=
  front.foldl (fun re aip => (re.addRoute (configuredRoute peer now aip)).1) re

/-- The peer's direct route for the prefix. -/
def IsConfiguredRoute (peer : TunnelPeer) (aip : AllowedIP) (r : Route) : Prop :=
  r.type = .direct ∧ r.network = (IPPrefix.of aip.network aip.prefixLength).address ∧
    r.prefixLength = aip.prefixLength.toUInt32 ∧ r.nextHop = peer.nodeId ∧ r.destination = peer.nodeId ∧
    r.path = [peer.nodeId]

instance (peer : TunnelPeer) (aip : AllowedIP) (r : Route) : Decidable (IsConfiguredRoute peer aip r) :=
  inferInstanceAs (Decidable (_ ∧ _))

section

variable {peer : TunnelPeer} {now : Time} {aip : AllowedIP} {re : RoutingEngine}

theorem canonicalPrefix_aip (aip : AllowedIP) :
    canonicalPrefix aip.network aip.prefixLength.toUInt32 = (IPPrefix.of aip.network aip.prefixLength).address :=
  canonicalPrefix_toUInt32 aip.network aip.prefixLength

theorem network_candidate_configuredRoute : (configuredRoute peer now aip).candidate.network =
    (IPPrefix.of aip.network aip.prefixLength).address :=
  canonicalPrefix_aip aip

theorem wellShaped_configuredRoute (h : aip.prefixLength.toNat ≤ aip.network.bitWidth) :
    (configuredRoute peer now aip).wellShaped = true := by
  have hvalid : validPrefixLength aip.network aip.prefixLength.toUInt32 = true := by
    simpa [validPrefixLength] using h
  simp [Route.wellShaped, configuredRoute, hvalid]

theorem withinLimits_configuredRoute : (configuredRoute peer now aip).candidate.withinLimits = true := rfl

theorem isConfiguredRoute_iff_key (now : Time) {r : Route} (hr : r ∈ re.routes) :
    IsConfiguredRoute peer aip r ↔ r.key = (configuredRoute peer now aip).candidate.key := by
  have hkey : (configuredRoute peer now aip).candidate.key = ((IPPrefix.of aip.network aip.prefixLength).address,
      aip.prefixLength.toUInt32, .direct, peer.nodeId, peer.nodeId) := by
    rw [Route.key, network_candidate_configuredRoute]
    rfl
  rw [hkey, Route.key]
  simp only [Prod.mk.injEq, IsConfiguredRoute]
  constructor
  · rintro ⟨htype, hnetwork, hlength, hhop, hdestination, -⟩
    exact ⟨hnetwork, hlength, htype, hhop, hdestination⟩
  · rintro ⟨hnetwork, hlength, htype, hhop, hdestination⟩
    refine ⟨htype, hnetwork, hlength, hhop, hdestination, ?_⟩
    rw [((re.invariant.valid r hr).direct htype).2, hdestination]

theorem configuredRoute_added_iff (h : aip.prefixLength.toNat ≤ aip.network.bitWidth) :
    (re.addRoute (configuredRoute peer now aip)).2 = true ↔
      (∃ r ∈ re.routes, IsConfiguredRoute peer aip r) ∨
      HasRoom re.maxRoutes re.routes (IPPrefix.of aip.network aip.prefixLength).address
        aip.prefixLength.toUInt32 := by
  rw [RoutingEngine.addRoute_eq_true_iff, network_candidate_configuredRoute]
  refine ⟨fun ⟨_, _, hcase⟩ => hcase.imp_left ?_, fun hcase =>
    ⟨wellShaped_configuredRoute h, withinLimits_configuredRoute, hcase.imp_left ?_⟩⟩
  · exact fun ⟨r, hr, hkey⟩ => ⟨r, hr, (isConfiguredRoute_iff_key now hr).mpr hkey⟩
  · exact fun ⟨r, hr, hroute⟩ => ⟨r, hr, (isConfiguredRoute_iff_key now hr).mp hroute⟩

@[simp] theorem maxRoutes_installedUpTo (ips : List AllowedIP) :
    (installedUpTo peer now re ips).maxRoutes = re.maxRoutes :=
  Run.invariant (fun re' : RoutingEngine => re'.maxRoutes = re.maxRoutes)
    (fun re' _ h => (RoutingEngine.addRoute_maxRoutes re' _).trans h) rfl ips

theorem isConfiguredRoute_installedUpTo (ips : List AllowedIP) {r : Route} (hr : r ∈ re.routes)
    (hroute : IsConfiguredRoute peer aip r) :
    ∃ r' ∈ (installedUpTo peer now re ips).routes, IsConfiguredRoute peer aip r' := by
  refine Run.invariant (fun re' : RoutingEngine => ∃ r' ∈ re'.routes, IsConfiguredRoute peer aip r') ?_
    ⟨r, hr, hroute⟩ ips
  rintro re' aip' ⟨r', hr', hroute'⟩
  obtain ⟨r'', hr'', hkey⟩ := RoutingEngine.exists_key_addRoute (configuredRoute peer now aip') hr'
  refine ⟨r'', hr'', (isConfiguredRoute_iff_key now hr'').mpr ?_⟩
  rw [hkey]
  exact (isConfiguredRoute_iff_key now hr').mp hroute'

theorem not_isConfiguredRoute_installedUpTo (ips : List AllowedIP)
    (hnone : ¬∃ r ∈ re.routes, IsConfiguredRoute peer aip r)
    (hfull : ¬HasRoom re.maxRoutes re.routes (IPPrefix.of aip.network aip.prefixLength).address
      aip.prefixLength.toUInt32) : ¬∃ r ∈ (installedUpTo peer now re ips).routes, IsConfiguredRoute peer aip r := by
  refine (Run.invariant (fun re' : RoutingEngine => re'.maxRoutes = re.maxRoutes ∧
    (¬∃ r ∈ re'.routes, IsConfiguredRoute peer aip r) ∧
    ¬HasRoom re.maxRoutes re'.routes (IPPrefix.of aip.network aip.prefixLength).address
      aip.prefixLength.toUInt32) ?_ ⟨rfl, hnone, hfull⟩ ips).2.1
  rintro re' aip' ⟨hmax, hnone', hfull'⟩
  refine ⟨(RoutingEngine.addRoute_maxRoutes re' _).trans hmax, ?_, fun hroom => ?_⟩
  · rintro ⟨r, hr, hroute⟩
    rcases RoutingEngine.mem_addRoute hr with hmem | heq
    · exact hnone' ⟨r, hmem, hroute⟩
    · -- the route came in at this turn, so its prefix had room
      have hkey := (isConfiguredRoute_iff_key now hr).mp hroute
      have hsame : (configuredRoute peer now aip').candidate.key = (configuredRoute peer now aip).candidate.key := by
        rw [← hkey, heq]
        rfl
      cases hadded : (re'.addRoute (configuredRoute peer now aip')).2 with
      | false =>
        rw [RoutingEngine.addRoute_of_eq_false hadded] at hr
        exact hnone' ⟨r, hr, hroute⟩
      | true =>
        obtain ⟨-, -, hcase⟩ := (RoutingEngine.addRoute_eq_true_iff _ _).mp hadded
        rcases hcase with ⟨r', hr', hkey'⟩ | hroom
        · exact hnone' ⟨r', hr', (isConfiguredRoute_iff_key now hr').mpr (hkey'.trans hsame)⟩
        · simp only [Route.key, Prod.mk.injEq] at hsame
          rw [hmax, hsame.1, hsame.2.1, network_candidate_configuredRoute] at hroom
          exact hfull' hroom
  · rw [← hmax] at hroom hfull'
    exact hfull' (RoutingEngine.hasRoom_of_addRoute hroom)

end

/-- When a configured route gets into the table. For every table, at the turn of a prefix: the direct route
is taken exactly if it is already held or if fewer than the maximum of routes and fewer than eight candidates
for the prefix, learned ones included, are in the table; it is in the table after
`install_configured_routes` exactly if it was taken; and a refusal changes nothing. -/
theorem configured_route_installed_iff (re : RoutingEngine) (now : Time) (peer : TunnelPeer)
    (front : List AllowedIP) (aip : AllowedIP) (rest : List AllowedIP)
    (hips : peer.allowedIps = front ++ aip :: rest) (hlength : aip.prefixLength.toNat ≤ aip.network.bitWidth) :
    let turn := installedUpTo peer now re front
    let added := turn.addRoute (configuredRoute peer now aip)
    (added.2 = true ↔ (∃ r ∈ turn.routes, IsConfiguredRoute peer aip r) ∨
      (turn.routes.length < re.maxRoutes ∧
        turn.routes.countP (fun r => r.network = (IPPrefix.of aip.network aip.prefixLength).address &&
          r.prefixLength = aip.prefixLength.toUInt32) < 8)) ∧
    ((∃ r ∈ (installConfiguredRoutes re now peer).routes, IsConfiguredRoute peer aip r) ↔ added.2 = true) ∧
    (added.2 = false → added.1 = turn) := by
  intro turn added
  have hadded : added.2 = true ↔ (∃ r ∈ turn.routes, IsConfiguredRoute peer aip r) ∨
      HasRoom turn.maxRoutes turn.routes (IPPrefix.of aip.network aip.prefixLength).address
        aip.prefixLength.toUInt32 := configuredRoute_added_iff hlength
  have hfinal : installConfiguredRoutes re now peer = installedUpTo peer now added.1 rest := by
    rw [installConfiguredRoutes, hips, List.foldl_append, List.foldl_cons]
    rfl
  have hmax : turn.maxRoutes = re.maxRoutes := maxRoutes_installedUpTo front
  refine ⟨by rw [hadded, hmax]; rfl, ?_, RoutingEngine.addRoute_of_eq_false⟩
  rw [hfinal]
  constructor
  · intro hpresent
    by_contra hrefused
    obtain ⟨hnone, hfull⟩ := not_or.mp (mt hadded.mpr hrefused)
    have hsame : added.1 = turn := RoutingEngine.addRoute_of_eq_false (by simpa using hrefused)
    rw [hsame] at hpresent
    exact not_isConfiguredRoute_installedUpTo rest hnone hfull hpresent
  · intro htrue
    obtain ⟨r, hr, heq⟩ := RoutingEngine.mem_of_addRoute htrue
    refine isConfiguredRoute_installedUpTo rest hr ((isConfiguredRoute_iff_key now hr).mpr ?_)
    rw [heq]
    rfl

/-! ### A crowded prefix -/

open Overlay (sampleNodeId)

/-- The network `10.0.0.0/24`. -/
def sampleNetwork : IPAddress := .fromIpv4 0x0a000000

/-- One established peer advertises eight peers with the same prefix before another peer, configured for that
prefix, is established. -/
def crowdedGossip : List OverlayAction :=
  [.upsert 1 (sampleNodeId 2) (sampleNodeId 2) none true, .markSeen 2 (sampleNodeId 2) none,
    .merge { self := sampleNodeId 1, sender := sampleNodeId 2, now := 3, validatedAt := 3 }
      ([11, 12, 13, 14, 15, 16, 17, 18].map fun n =>
        { nodeId := sampleNodeId n, publicKey := sampleNodeId n,
          prefixes := [{ network := sampleNetwork, prefixLength := 24 }] }),
    .upsert 4 (sampleNodeId 3) (sampleNodeId 3) none true, .markSeen 5 (sampleNodeId 3) none]

def crowdedPeer : TunnelPeer where
  nodeId := sampleNodeId 3
  publicKey := sampleNodeId 3
  allowedIps := [⟨sampleNetwork, 24⟩]

/-- Eight learned candidates keep a configured route out. -/
theorem configured_route_blocked :
    let s := Overlay.run (fun key => key) {} {} crowdedGossip
    (s.peers.peers.find? crowdedPeer.nodeId).map Peer.state = some .established ∧
    crowdedPeer.allowedIps.length ≤ s.routing.maxRoutes ∧ s.routing.directRoutes = [] ∧
    ∀ r ∈ (installConfiguredRoutes s.routing 6 crowdedPeer).routes,
      ¬IsConfiguredRoute crowdedPeer ⟨sampleNetwork, 24⟩ r := by
  decide +kernel

/-- On an empty table the route is taken. -/
theorem configured_route_installed_empty :
    crowdedPeer.allowedIps = [] ++ ⟨sampleNetwork, 24⟩ :: [] ∧
    ((({} : RoutingEngine).addRoute (configuredRoute crowdedPeer 6 ⟨sampleNetwork, 24⟩)).2 = true ↔
      (∃ r ∈ (installConfiguredRoutes {} 6 crowdedPeer).routes,
        IsConfiguredRoute crowdedPeer ⟨sampleNetwork, 24⟩ r)) :=
  ⟨rfl, (configured_route_installed_iff {} 6 crowdedPeer [] ⟨sampleNetwork, 24⟩ [] rfl (by decide)).2.1.symm⟩

end Aegis
