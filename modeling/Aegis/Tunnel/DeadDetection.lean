import Aegis.Tunnel.Overlay

/-!
# Dead detection and learned routes

The dead detection of `maintenance_loop` removes the routes of a stale peer by next hop and by destination.
A peer that is only reached through relays is never heard from itself, so its silence is counted from the
creation of its record and gossip that refreshes its routes does not end it: after the dead timeout the peer
loses its routes once. From then on it is marked dead, which dead detection does not report again, so routes
learned later stay until the peer is heard from or a connection attempt begins.
-/

namespace Aegis

namespace Overlay

variable {hashPublicKey : X25519Key → NodeId} {timers : PeerTimers}

/-- Something came from the peer within the dead timeout. -/
def HeardWithin (timers : PeerTimers) (now : Time) (s : Overlay) (id : NodeId) : Prop :=
  ∃ peer, s.peers.peers.find? id = some peer ∧ peer.lastSeen ≠ 0 ∧ now - peer.lastSeen < timers.deadTimeout

instance (timers : PeerTimers) (now : Time) (s : Overlay) (id : NodeId) : Decidable (s.HeardWithin timers now id) :=
  decidable_of_iff ((s.peers.peers.find? id).any fun peer =>
      peer.lastSeen ≠ 0 && now - peer.lastSeen < timers.deadTimeout) (by
    cases hfind : s.peers.peers.find? id <;> simp [HeardWithin, hfind])

/-! ### One detection -/

variable {s : Overlay}

theorem mem_foldl_markDead {stale : List Peer} {r : Route} :
    r ∈ (stale.foldl markDead s).routing.routes ↔
      r ∈ s.routing.routes ∧ ∀ peer ∈ stale, r.destination ≠ peer.nodeId ∧ r.nextHop ≠ peer.nodeId := by
  induction stale generalizing s with
  | nil => simp
  | cons peer stale ih =>
    rw [List.foldl_cons, ih]
    simp [markDead, RoutingEngine.removeRoute, RoutingEngine.mem_eraseIf, and_assoc]

theorem mem_detectDead {now : Time} (hkeyed : PeerManager.Keyed s.peers) {r : Route} :
    r ∈ (s.detectDead timers now).routing.routes ↔ r ∈ s.routing.routes ∧
      ∀ id peer, s.peers.peers.find? id = some peer → peer.stale timers now = true →
        r.destination ≠ id ∧ r.nextHop ≠ id := by
  rw [detectDead, mem_foldl_markDead]
  refine and_congr_right fun _ => ⟨fun h id peer hpeer hstale => ?_, fun h peer hpeer => ?_⟩
  · have hne := h peer (PeerManager.mem_stalePeers.mpr ⟨⟨id, hpeer⟩, hstale⟩)
    rwa [hkeyed id peer hpeer] at hne
  · obtain ⟨⟨id, hid⟩, hstale⟩ := PeerManager.mem_stalePeers.mp hpeer
    rw [hkeyed id peer hid]
    exact h id peer hid hstale

theorem not_mem_detectDead_iff {now : Time} (hkeyed : PeerManager.Keyed s.peers) {r : Route}
    (hr : r ∈ s.routing.routes) (hheard : s.HeardWithin timers now r.nextHop) :
    r ∉ (s.detectDead timers now).routing.routes ↔
      ∃ peer, s.peers.peers.find? r.destination = some peer ∧ peer.stale timers now = true := by
  rw [mem_detectDead hkeyed]
  constructor
  · intro hgone
    by_contra hnone
    refine hgone ⟨hr, fun id peer hpeer hstale => ⟨?_, ?_⟩⟩
    · rintro rfl
      exact hnone ⟨peer, hpeer, hstale⟩
    · rintro rfl
      obtain ⟨hop, hhop, hseen, hrecent⟩ := hheard
      obtain rfl := Option.some.inj (hhop.symm.trans hpeer)
      have hold := (Peer.stale_iff.mp hstale).2
      rw [if_pos hseen] at hold
      exact absurd hold (not_le.mpr hrecent)
  · rintro ⟨peer, hpeer, hstale⟩ ⟨-, hkept⟩
    exact (hkept r.destination peer hpeer hstale).1 rfl

/-! ### Records over a run -/

/-- The action says nothing about the liveness of the peer. -/
def SilentOn (id : NodeId) : OverlayAction → Prop
  | .markSeen _ nodeId _ => nodeId ≠ id
  | .markHolePunched _ nodeId _ => nodeId ≠ id
  | .markConnecting nodeId => nodeId ≠ id
  | .updateEndpoint _ nodeId _ => nodeId ≠ id
  | _ => True

instance (id : NodeId) : DecidablePred (SilentOn id) := fun a => by
  cases a <;> unfold SilentOn <;> infer_instance

/-- A property of records that a fresh record has and that writing a key or an endpoint keeps. -/
structure RecordProperty (P : NodeId → Peer → Prop) : Prop where
  fresh : ∀ now nodeId publicKey endpoint trusted, P nodeId
    { nodeId := nodeId, publicKey := publicKey, endpoint := endpoint, trusted := trusted, createdAt := now }
  rewritten : ∀ id peer publicKey endpoint trusted, P id peer →
    P id { peer with publicKey := publicKey, endpoint := endpoint, trusted := trusted }

variable {P : NodeId → Peer → Prop}

theorem RecordProperty.upsert (hP : RecordProperty P) {mgr : PeerManager} {now : Time} {nodeId : NodeId}
    {publicKey : X25519Key} {endpoint : Option Endpoint} {trusted : Bool}
    (h : ∀ id peer, mgr.peers.find? id = some peer → P id peer) (id : NodeId) (peer : Peer)
    (hpeer : (mgr.upsert now nodeId publicKey endpoint trusted).1.peers.find? id = some peer) : P id peer := by
  by_cases hid : id = nodeId
  swap
  · exact h id peer (by rwa [PeerManager.find?_upsert_of_ne hid] at hpeer)
  subst hid
  cases haccepts : mgr.accepts id publicKey with
  | false => exact h id peer (by rwa [PeerManager.upsert_of_not_accepts haccepts] at hpeer)
  | true =>
    rw [PeerManager.find?_upsert_self haccepts] at hpeer
    obtain rfl := Option.some.inj hpeer
    unfold PeerManager.recordAfter
    cases hfind : mgr.peers.find? id with
    | none => exact hP.fresh now id publicKey endpoint trusted
    | some old => exact hP.rewritten id old _ _ _ (h id old hfind)

theorem RecordProperty.merge (hP : RecordProperty P) {ctx : MergeContext} {pm : PeerManager} {re : RoutingEngine}
    {advertised : List AdvertisedPeer} (h : ∀ id peer, pm.peers.find? id = some peer → P id peer) :
    ∀ id peer, (mergePeerTable hashPublicKey ctx pm re advertised).peers.peers.find? id = some peer → P id peer :=
  mergePeerTable_induction (fun pm' _ => ∀ id peer, pm'.peers.find? id = some peer → P id peer)
    (fun _ _ _ _ _ _ hinv => hP.upsert hinv) (fun _ _ _ _ _ _ _ _ _ hinv => hinv) h

theorem forall_find?_detectDead {now : Time}
    (hdead : ∀ id peer, P id peer → P id { peer with state := .dead, path := .unknown })
    (h : ∀ id peer, s.peers.peers.find? id = some peer → P id peer) :
    ∀ id peer, (s.detectDead timers now).peers.peers.find? id = some peer → P id peer :=
  Run.invariant (fun t : Overlay => ∀ id peer, t.peers.peers.find? id = some peer → P id peer)
    (fun _ stale hinv => PeerManager.forall_find?_modify (fun peer => hdead stale.nodeId peer) hinv) h _

theorem keyed_recordProperty : RecordProperty fun id peer => peer.nodeId = id :=
  ⟨fun _ _ _ _ _ => rfl, fun _ _ _ _ _ h => h⟩

theorem keyed_step (s : Overlay) (a : OverlayAction) (h : PeerManager.Keyed s.peers) :
    PeerManager.Keyed (step hashPublicKey timers s a).peers := by
  cases a with
  | merge => exact keyed_recordProperty.merge h
  | upsert => exact keyed_recordProperty.upsert h
  | markSeen | markHolePunched | markConnecting | updateEndpoint =>
    exact PeerManager.forall_find?_modify (fun _ hid => hid) h
  | detectDead => exact forall_find?_detectDead (fun _ _ hid => hid) h
  | addDirect | installConfigured | removeRoute | expire | markProbeSent | recordProbeSuccess
    | recordProbeFailure => exact h

theorem keyed_run (actions : List OverlayAction) (h : PeerManager.Keyed s.peers) :
    PeerManager.Keyed (run hashPublicKey timers s actions).peers :=
  Run.invariant (fun s : Overlay => PeerManager.Keyed s.peers) keyed_step h actions

theorem unseen_recordProperty (id : NodeId) : RecordProperty fun id' peer => id' = id → peer.lastSeen = 0 :=
  ⟨fun _ _ _ _ _ _ => rfl, fun _ _ _ _ _ h => h⟩

theorem unseen_step {id : NodeId} (s : Overlay) (a : OverlayAction)
    (h : ∀ id' peer, s.peers.peers.find? id' = some peer → id' = id → peer.lastSeen = 0) (hsilent : SilentOn id a) :
    ∀ id' peer, (step hashPublicKey timers s a).peers.peers.find? id' = some peer → id' = id →
      peer.lastSeen = 0 := by
  cases a with
  | merge => exact (unseen_recordProperty id).merge h
  | upsert => exact (unseen_recordProperty id).upsert h
  | markSeen now nodeId endpoint | markHolePunched now nodeId endpoint | updateEndpoint now nodeId endpoint =>
    exact PeerManager.forall_find?_modify (P := fun id' peer => id' = id → peer.lastSeen = 0)
      (fun _ _ heq => absurd heq hsilent) h
  | markConnecting nodeId =>
    exact PeerManager.forall_find?_modify (P := fun id' peer => id' = id → peer.lastSeen = 0)
      (fun _ hunseen => hunseen) h
  | detectDead =>
    exact forall_find?_detectDead (P := fun id' peer => id' = id → peer.lastSeen = 0) (fun _ _ hunseen => hunseen) h
  | addDirect | installConfigured | removeRoute | expire | markProbeSent | recordProbeSuccess
    | recordProbeFailure => exact h

def MarkedDead (mgr : PeerManager) (id : NodeId) : Prop :=
  ∃ peer, mgr.peers.find? id = some peer ∧ peer.state = .dead

theorem MarkedDead.modify {mgr : PeerManager} {nodeId id : NodeId} {f : Peer → Peer} (h : MarkedDead mgr id)
    (hf : nodeId = id → ∀ peer, (f peer).state = .dead) : MarkedDead (mgr.modify nodeId f) id := by
  obtain ⟨peer, hpeer, hdead⟩ := h
  unfold MarkedDead
  rw [PeerManager.find?_modify]
  split_ifs with hid
  · exact ⟨f peer, by rw [hpeer]; rfl, hf hid.symm peer⟩
  · exact ⟨peer, hpeer, hdead⟩

theorem MarkedDead.upsert {mgr : PeerManager} {id : NodeId} (h : MarkedDead mgr id) (now : Time) (nodeId : NodeId)
    (publicKey : X25519Key) (endpoint : Option Endpoint) (trusted : Bool) :
    MarkedDead (mgr.upsert now nodeId publicKey endpoint trusted).1 id := by
  obtain ⟨peer, hpeer, hdead⟩ := h
  obtain ⟨peer', hpeer', heq⟩ := PeerManager.find?_upsert_of_some hpeer
  refine ⟨peer', hpeer', ?_⟩
  rw [heq]
  exact hdead

theorem MarkedDead.foldl_markDead {id : NodeId} (h : MarkedDead s.peers id) (stale : List Peer) :
    MarkedDead (stale.foldl markDead s).peers id :=
  Run.invariant (fun t : Overlay => MarkedDead t.peers id)
    (fun _ _ hinv => hinv.modify (f := fun peer => { peer with state := .dead, path := .unknown })
      fun _ _ => rfl) h stale

theorem markedDead_step {id : NodeId} (s : Overlay) (a : OverlayAction) (h : MarkedDead s.peers id)
    (hsilent : SilentOn id a) : MarkedDead (step hashPublicKey timers s a).peers id := by
  cases a with
  | merge ctx advertised =>
    exact mergePeerTable_induction (fun pm _ => MarkedDead pm id)
      (fun _ _ _ _ _ _ hinv => hinv.upsert _ _ _ _ _) (fun _ _ _ _ _ _ _ _ _ hinv => hinv) h
  | upsert => exact h.upsert _ _ _ _ _
  | markSeen | markHolePunched | markConnecting | updateEndpoint =>
    exact h.modify fun heq => absurd heq hsilent
  | detectDead => exact h.foldl_markDead _
  | addDirect | installConfigured | removeRoute | expire | markProbeSent | recordProbeSuccess
    | recordProbeFailure => exact h

theorem markedDead_detectDead {now : Time} (hkeyed : s.peers.Keyed) {id : NodeId} {peer : Peer}
    (hpeer : s.peers.peers.find? id = some peer) (hstale : peer.stale timers now = true) :
    MarkedDead (s.detectDead timers now).peers id := by
  obtain ⟨front, rest, hsplit⟩ := List.append_of_mem (PeerManager.mem_stalePeers.mpr ⟨⟨id, hpeer⟩, hstale⟩)
  rw [detectDead, hsplit, List.foldl_append, List.foldl_cons]
  -- the record is there at the peer's turn and stays dead afterwards
  obtain ⟨peer', hpeer', -⟩ := (peersKept_foldl_markDead s front).keeps id peer hpeer
  refine MarkedDead.foldl_markDead ⟨{ peer' with state := .dead, path := .unknown }, ?_, rfl⟩ rest
  rw [markDead, PeerManager.markDead, PeerManager.find?_modify, hkeyed id peer hpeer, if_pos rfl, hpeer']
  rfl

/-- What dead detection removes. At every point of a run of a fresh node: a learned route whose next hop was
heard from within the dead timeout is removed exactly if the record of its destination is stale, that is,
not marked dead and silent for the dead timeout, counted from the record's creation for a peer never heard
from; a peer of which nothing is heard counts as never heard from; and once it was found stale, later dead
detections remove no such route to it as long as nothing is heard of it. -/
theorem dead_detection_removes_iff (maxPeers maxRoutes : Nat) (actions : List OverlayAction) (now : Time) :
    let s := run hashPublicKey timers
      { peers := { maxPeers := maxPeers }, routing := { maxRoutes := maxRoutes } } actions
    (∀ r ∈ s.routing.routes, r.type = .relay → s.HeardWithin timers now r.nextHop →
      (r ∉ (s.detectDead timers now).routing.routes ↔
        ∃ peer, s.peers.peers.find? r.destination = some peer ∧ peer.state ≠ .dead ∧
          timers.deadTimeout ≤ now - (if peer.lastSeen ≠ 0 then peer.lastSeen else peer.createdAt))) ∧
    (∀ id peer, (∀ a ∈ actions, SilentOn id a) → s.peers.peers.find? id = some peer → peer.lastSeen = 0) ∧
    ∀ id peer, s.peers.peers.find? id = some peer → peer.stale timers now = true →
      ∀ (later : List OverlayAction) (now' : Time), (∀ a ∈ later, SilentOn id a) →
        let s' := run hashPublicKey timers (s.detectDead timers now) later
        ∀ r ∈ s'.routing.routes, r.type = .relay → r.destination = id → s'.HeardWithin timers now' r.nextHop →
          r ∈ (s'.detectDead timers now').routing.routes := by
  intro s
  have hkeyed : PeerManager.Keyed s.peers := keyed_run actions fun id peer h => by simp at h
  refine ⟨fun r hr _ hheard => ?_, fun id peer hsilent hpeer => ?_, ?_⟩
  · rw [not_mem_detectDead_iff hkeyed hr hheard]
    exact exists_congr fun peer => and_congr_right fun _ => Peer.stale_iff
  · refine Run.invariant_of_mem (fun t : Overlay => ∀ id' peer, t.peers.peers.find? id' = some peer → id' = id →
      peer.lastSeen = 0) (fun t a ha hinv => unseen_step t a hinv (hsilent a ha)) ?_ id peer hpeer rfl
    intro id' peer h
    simp at h
  · intro id peer hpeer hstale later now' hsilent s' r hr _ hdestination hheard
    have hdead : MarkedDead s'.peers id := Run.invariant_of_mem (fun t : Overlay => MarkedDead t.peers id)
      (fun t a ha hinv => markedDead_step t a hinv (hsilent a ha)) (markedDead_detectDead hkeyed hpeer hstale)
    have hkeyed' : PeerManager.Keyed s'.peers := keyed_run later (forall_find?_detectDead (fun _ _ hid => hid) hkeyed)
    by_contra hgone
    obtain ⟨peer', hpeer', hstale'⟩ := (not_mem_detectDead_iff hkeyed' hr hheard).mp hgone
    obtain ⟨dead, hdead, hstate⟩ := hdead
    rw [hdestination, hdead] at hpeer'
    obtain rfl := Option.some.inj hpeer'
    exact (Peer.stale_iff.mp hstale').1 hstate

/-! ### A peer behind a relay -/

/-- Peer 2 is configured and answers; it advertises peer 3, which is never heard from. -/
def relayOnly : List OverlayAction :=
  let ctx (now : Time) : MergeContext :=
    { self := sampleNodeId 1, sender := sampleNodeId 2, now := now, validatedAt := now }
  let table : List AdvertisedPeer :=
    [{ nodeId := sampleNodeId 3, publicKey := sampleNodeId 3,
        prefixes := [{ network := .fromIpv4 0x0a000300, prefixLength := 24 }] }]
  [.upsert 1 (sampleNodeId 2) (sampleNodeId 2) none true, .markSeen 1 (sampleNodeId 2) none,
    .merge (ctx 1000) table, .markSeen 90000 (sampleNodeId 2) none, .merge (ctx 90000) table,
    .markSeen 180000 (sampleNodeId 2) none, .merge (ctx 180000) table]

/-- Its route, refreshed a second ago through a peer heard from a second ago, falls to dead detection. -/
theorem dead_detection_removes_live_route :
    let s := run (fun key => key) {} {} relayOnly
    ∃ r ∈ s.routing.routes, r.type = .relay ∧ learnedRouteLeaseExpired r 181000 = false ∧
      r.probe.failed = false ∧ s.HeardWithin {} 181000 r.nextHop ∧
      r ∉ (s.detectDead {} 181000).routing.routes := by
  decide +kernel

end Overlay

end Aegis
