import Aegis.Peer.MergeSafety

/-!
# The overlay state of a node

The peer table and the routing engine of a tunnel, as the threads of `tunnel/tunnel.cpp` change them:
gossip is merged, peers are configured and heard from, configured routes are installed, the maintenance
loop marks silent peers dead and expires leases, and probes report on routes. Each operation holds the
locks of its table, so a run is a list of operations. What an operation can do to a record or a route is
said here once; the modules on supersession, advertising and dead detection build on it.
-/

namespace Aegis

/-- A prefix a configured peer is responsible for. -/
structure AllowedIP where
  network : IPAddress
  prefixLength : UInt8
deriving DecidableEq

structure TunnelPeer where
  nodeId : NodeId
  publicKey : X25519Key
  endpoint : Endpoint := {}
  allowedIps : List AllowedIP := []
deriving DecidableEq

def configuredRoute (peer : TunnelPeer) (now : Time) (aip : AllowedIP) : Route where
  network := aip.network
  prefixLength := aip.prefixLength.toUInt32
  type := .direct
  nextHop := peer.nodeId
  destination := peer.nodeId
  path := [peer.nodeId]
  metric := 1
  validatedAt := now

def installConfiguredRoutes (re : RoutingEngine) (now : Time) (peer : TunnelPeer) : RoutingEngine :=
  peer.allowedIps.foldl (fun re aip => (re.addRoute (configuredRoute peer now aip)).1) re

structure Overlay where
  peers : PeerManager := {}
  routing : RoutingEngine := {}
deriving DecidableEq

namespace Overlay

/-- A silent peer is marked dead and loses its routes. -/
def markDead (s : Overlay) (peer : Peer) : Overlay where
  peers := s.peers.markDead peer.nodeId
  routing := s.routing.removeRoute peer.nodeId

/-- The dead detection of one iteration of the maintenance loop. -/
def detectDead (timers : PeerTimers) (now : Time) (s : Overlay) : Overlay :=
  (s.peers.stalePeers timers now).foldl markDead s

end Overlay

inductive OverlayAction where
  | merge (ctx : MergeContext) (advertised : List AdvertisedPeer)
  | upsert (now : Time) (nodeId : NodeId) (publicKey : X25519Key) (endpoint : Option Endpoint) (trusted : Bool)
  | markSeen (now : Time) (nodeId : NodeId) (endpoint : Option Endpoint)
  | markHolePunched (now : Time) (nodeId : NodeId) (endpoint : Endpoint)
  | markConnecting (nodeId : NodeId)
  | updateEndpoint (now : Time) (nodeId : NodeId) (endpoint : Endpoint)
  | addDirect (route : Route)
  | installConfigured (now : Time) (peer : TunnelPeer)
  | removeRoute (nodeId : NodeId)
  | detectDead (now : Time)
  | expire (now : Time)
  | markProbeSent (target : RoutingEngine.ProbeTarget) (now : Time)
  | recordProbeSuccess (target : RoutingEngine.ProbeTarget) (now rtt : Time)
  | recordProbeFailure (target : RoutingEngine.ProbeTarget) (now : Time)

namespace Overlay

variable (hashPublicKey : X25519Key → NodeId) (timers : PeerTimers)

def step (s : Overlay) : OverlayAction → Overlay
  | .merge ctx advertised =>
    let m := mergePeerTable hashPublicKey ctx s.peers s.routing advertised
    { peers := m.peers, routing := m.routing }
  | .upsert now nodeId publicKey endpoint trusted =>
    { s with peers := (s.peers.upsert now nodeId publicKey endpoint trusted).1 }
  | .markSeen now nodeId endpoint => { s with peers := s.peers.markSeen now nodeId endpoint }
  | .markHolePunched now nodeId endpoint => { s with peers := s.peers.markHolePunched now nodeId endpoint }
  | .markConnecting nodeId => { s with peers := s.peers.markConnecting nodeId }
  | .updateEndpoint now nodeId endpoint => { s with peers := s.peers.updateEndpoint now nodeId endpoint }
  | .addDirect route => { s with routing := (s.routing.addRoute { route with type := .direct }).1 }
  | .installConfigured now peer => { s with routing := installConfiguredRoutes s.routing now peer }
  | .removeRoute nodeId => { s with routing := s.routing.removeRoute nodeId }
  | .detectDead now => s.detectDead timers now
  | .expire now => { s with routing := (s.routing.expireLearnedRoutes now).1 }
  | .markProbeSent target now => { s with routing := (s.routing.markProbeSent target now).1 }
  | .recordProbeSuccess target now rtt => { s with routing := (s.routing.recordProbeSuccess target now rtt).1 }
  | .recordProbeFailure target now => { s with routing := (s.routing.recordProbeFailure target now).1 }

def run (s : Overlay) (actions : List OverlayAction) : Overlay := actions.foldl (step hashPublicKey timers) s

end Overlay

/-! ### What an action does to the peer table -/

namespace PeerManager

@[simp] theorem modify_maxPeers (mgr : PeerManager) (nodeId : NodeId) (f : Peer → Peer) :
    (mgr.modify nodeId f).maxPeers = mgr.maxPeers := by
  unfold modify
  split <;> rfl

theorem size_modify_le (mgr : PeerManager) (nodeId : NodeId) (f : Peer → Peer) :
    (mgr.modify nodeId f).peers.size ≤ mgr.peers.size := by
  unfold modify
  split
  · exact le_refl _
  · rename_i peer hpeer
    exact SortedMap.size_insert_of_contains _ (SortedMap.contains_of_find? hpeer)

theorem keeps_modify {mgr : PeerManager} {nodeId : NodeId} {f : Peer → Peer}
    (hkey : ∀ peer, (f peer).publicKey = peer.publicKey) (htrust : ∀ peer, (f peer).trusted = peer.trusted) :
    mgr.Keeps (mgr.modify nodeId f) := by
  intro id peer hpeer
  rw [find?_modify]
  split_ifs
  · exact ⟨f peer, by rw [hpeer]; rfl, fun _ => hkey peer, fun h => by rw [htrust, h]⟩
  · exact ⟨peer, hpeer, fun _ => rfl, fun h => h⟩

end PeerManager

namespace Overlay

/-- The peer table stays within its bound and keeps bound keys and trust. -/
structure PeersKept (before after : PeerManager) : Prop where
  keeps : before.Keeps after
  maxPeers : after.maxPeers = before.maxPeers
  bounded : before.peers.size ≤ before.maxPeers → after.peers.size ≤ after.maxPeers

theorem PeersKept.refl (mgr : PeerManager) : PeersKept mgr mgr := ⟨PeerManager.Keeps.refl mgr, rfl, fun h => h⟩

theorem PeersKept.trans {a b c : PeerManager} (hab : PeersKept a b) (hbc : PeersKept b c) : PeersKept a c :=
  ⟨hab.keeps.trans hbc.keeps, hbc.maxPeers.trans hab.maxPeers, fun h => hbc.bounded (hab.bounded h)⟩

theorem PeersKept.modify {mgr : PeerManager} {nodeId : NodeId} {f : Peer → Peer}
    (hkey : ∀ peer, (f peer).publicKey = peer.publicKey) (htrust : ∀ peer, (f peer).trusted = peer.trusted) :
    PeersKept mgr (mgr.modify nodeId f) where
  keeps := PeerManager.keeps_modify hkey htrust
  maxPeers := PeerManager.modify_maxPeers mgr nodeId f
  bounded h := by
    rw [PeerManager.modify_maxPeers]
    exact (PeerManager.size_modify_le mgr nodeId f).trans h

theorem peersKept_markDead (s : Overlay) (peer : Peer) : PeersKept s.peers (s.markDead peer).peers :=
  PeersKept.modify (f := fun peer => { peer with state := .dead, path := .unknown }) (fun _ => rfl) fun _ => rfl

theorem peersKept_foldl_markDead (s : Overlay) (stale : List Peer) : PeersKept s.peers (stale.foldl markDead s).peers :=
  Run.invariant (fun t : Overlay => PeersKept s.peers t.peers)
    (fun t peer h => h.trans (peersKept_markDead t peer)) (.refl _) stale

variable {hashPublicKey : X25519Key → NodeId} {timers : PeerTimers}

theorem peersKept_step (s : Overlay) (a : OverlayAction) : PeersKept s.peers (step hashPublicKey timers s a).peers := by
  cases a with
  | merge ctx advertised =>
    exact ⟨keeps_merge _ _ _ _ _, maxPeers_merge _ _ _ _ _, size_merge_le _ _ _ _ _⟩
  | upsert now nodeId publicKey endpoint trusted =>
    refine ⟨PeerManager.keeps_upsert, PeerManager.upsert_maxPeers, fun h => ?_⟩
    exact (PeerManager.size_upsert_le h).trans PeerManager.upsert_maxPeers.ge
  | markSeen | markHolePunched | markConnecting | updateEndpoint => exact .modify (fun _ => rfl) fun _ => rfl
  | detectDead now => exact peersKept_foldl_markDead s _
  | addDirect | installConfigured | removeRoute | expire | markProbeSent | recordProbeSuccess
    | recordProbeFailure => exact .refl _

/-- Over a whole run no bound key changes, no trust is withdrawn and the table stays within its bound. -/
theorem peersKept_run (s : Overlay) (actions : List OverlayAction) :
    PeersKept s.peers (run hashPublicKey timers s actions).peers :=
  Run.invariant (fun t : Overlay => PeersKept s.peers t.peers) (fun t a h => h.trans (peersKept_step t a))
    (.refl _) actions

/-! ### What an action does to learned routes -/

theorem learnedWithin_step (s : Overlay) (a : OverlayAction) (h : ∀ ctx advertised, a ≠ .merge ctx advertised) :
    s.routing.LearnedWithin (step hashPublicKey timers s a).routing := by
  cases a with
  | merge ctx advertised => exact absurd rfl (h ctx advertised)
  | upsert | markSeen | markHolePunched | markConnecting | updateEndpoint => exact .refl _
  | addDirect route => exact RoutingEngine.learnedWithin_addRoute rfl
  | installConfigured now peer =>
    exact Run.invariant (fun re => s.routing.LearnedWithin re)
      (fun _ _ hinv => hinv.trans (RoutingEngine.learnedWithin_addRoute rfl)) (.refl _) peer.allowedIps
  | removeRoute nodeId => exact RoutingEngine.learnedWithin_eraseIf _ _
  | detectDead now =>
    exact Run.invariant (fun t : Overlay => s.routing.LearnedWithin t.routing)
      (fun _ _ hinv => hinv.trans (RoutingEngine.learnedWithin_eraseIf _ _)) (.refl _) _
  | expire now => exact RoutingEngine.learnedWithin_eraseIf _ _
  | markProbeSent target now => exact RoutingEngine.learnedWithin_updateProbe _ _ _
  | recordProbeSuccess target now rtt =>
    simp only [step, RoutingEngine.recordProbeSuccess]
    split_ifs
    · exact .refl _
    · exact RoutingEngine.learnedWithin_updateProbe _ _ _
  | recordProbeFailure target now => exact RoutingEngine.learnedWithin_updateProbe _ _ _

theorem mem_step_of_relay {s : Overlay} {a : OverlayAction} {r : Route}
    (hr : r ∈ (step hashPublicKey timers s a).routing.routes) (htype : r.type = .relay) :
    (∃ old ∈ s.routing.routes, r = { old with probe := r.probe }) ∨
    ∃ ctx advertised, a = .merge ctx advertised ∧
      ∃ p ∈ advertised, ∃ record, LearnedFrom hashPublicKey ctx p record r := by
  cases a with
  | merge ctx advertised =>
    rcases mem_mergePeerTable hr with hold | ⟨p, hp, record, hlearned, -⟩
    · exact Or.inl ⟨r, hold, rfl⟩
    · exact Or.inr ⟨ctx, advertised, rfl, p, hp, record, hlearned⟩
  | _ => exact Or.inl (learnedWithin_step s _ (by simp) r hr htype)

/-- What gossip and configuration cannot corrupt. At every point of a run: bound keys and trust are those
of the start, the table of peers is within its bound, and whatever table is merged next sets no endpoint,
adds only keys that their ids name, keeps every configured route, and has no effect through an entry whose
identity is refused. -/
theorem gossip_keeps_identities (s : Overlay) (hsize : s.peers.peers.size ≤ s.peers.maxPeers)
    (actions : List OverlayAction) :
    let t := run hashPublicKey timers s actions
    (∀ id peer, s.peers.peers.find? id = some peer → ∃ peer', t.peers.peers.find? id = some peer' ∧
      (peer.publicKey ≠ FixedBytes.zero 32 → peer'.publicKey = peer.publicKey) ∧
      (peer.trusted = true → peer'.trusted = true)) ∧
    t.peers.peers.size ≤ s.peers.maxPeers ∧
    ∀ (ctx : MergeContext) (advertised : List AdvertisedPeer),
      let m := mergePeerTable hashPublicKey ctx t.peers t.routing advertised
      (∀ id, m.peers.endpointOf id = t.peers.endpointOf id) ∧
      (∀ id peer, t.peers.peers.find? id = none → m.peers.peers.find? id = some peer →
        peer.publicKey ≠ FixedBytes.zero 32 ∧ hashPublicKey peer.publicKey = id) ∧
      m.routing.routes.filter (fun r => r.type = .direct) =
        t.routing.routes.filter (fun r => r.type = .direct) ∧
      ∀ front p rest, advertised = front ++ p :: rest →
        let mid := mergePeerTable hashPublicKey ctx t.peers t.routing front
        (p.identityOk hashPublicKey = false ∨
          (mid.peers.upsert ctx.now p.nodeId p.publicKey none false).2 = .identityConflict ∨
          (mid.peers.upsert ctx.now p.nodeId p.publicKey none false).2 = .capacityRejected) →
        (mergeEntry hashPublicKey ctx mid p).peers = mid.peers ∧
          (mergeEntry hashPublicKey ctx mid p).routing = mid.routing := by
  intro t
  have hkept : PeersKept s.peers t.peers := peersKept_run s actions
  refine ⟨fun id peer hpeer => ?_, ?_, fun ctx advertised => ⟨?_, ?_, ?_, ?_⟩⟩
  · obtain ⟨peer', hpeer', hkey, htrust⟩ := hkept.keeps id peer hpeer
    exact ⟨peer', hpeer', fun hbound => hkey (beq_eq_false_iff_ne.mpr hbound), htrust⟩
  · exact (hkept.bounded hsize).trans hkept.maxPeers.le
  · exact endpointOf_merge hashPublicKey ctx t.peers t.routing advertised
  · intro id peer hnone hpeer
    rcases keysFrom_merge hashPublicKey ctx t.peers t.routing advertised id peer hpeer with
      ⟨old, hold, -⟩ | ⟨hkey, hhash⟩
    · rw [hnone] at hold
      cases hold
    · exact ⟨beq_eq_false_iff_ne.mp hkey, hhash⟩
  · exact directRoutes_merge hashPublicKey ctx t.peers t.routing advertised
  · exact fun front p rest _ hrefused => mergeEntry_of_refused hrefused

/-- The id, and the key, of a sample node whose key is its own hash. -/
def sampleNodeId (n : UInt8) : NodeId := FixedBytes.copy 32 [n]

/-- A node that knows one configured and one learned peer. -/
def sampleOverlay : Overlay where
  peers := ((({} : PeerManager).upsert 1 (sampleNodeId 2) (sampleNodeId 2) none true).1.upsert 1 (sampleNodeId 3)
    (sampleNodeId 3) none false).1

/-- The learned peer claims the configured one's id under another key. -/
def sampleGossip : List OverlayAction :=
  [.merge { self := sampleNodeId 1, sender := sampleNodeId 3, now := 5, validatedAt := 5 }
    [{ nodeId := sampleNodeId 2, publicKey := sampleNodeId 4 },
      { nodeId := sampleNodeId 4, publicKey := sampleNodeId 4 }]]

theorem gossip_keeps_identities_sample :
    sampleOverlay.peers.peers.size ≤ sampleOverlay.peers.maxPeers ∧
    (run (fun key => key) {} sampleOverlay sampleGossip).peers.peers.size ≤ 256 :=
  ⟨by decide, (@gossip_keeps_identities (fun key => key) {} sampleOverlay (by decide) sampleGossip).2.1⟩

end Overlay

end Aegis
