import Aegis.Peer.Manager

/-!
# Liveness of peers

The rest of `peer/peer.cpp`: the operations that record what was heard of a peer, and the two scans of the
maintenance loop. A record counts as stale when nothing was heard for the dead timeout, counted from its
creation for a peer never heard of; a record already marked dead is not reported again. A keep-alive is due
when nothing was heard for the keep-alive interval: sending one does not advance any timestamp.

The two intervals are members of the manager that only configuration sets; here they are an argument. Ages
are compared in milliseconds, the unit of the clock here.
-/

namespace Aegis

/-- The intervals the maintenance loop compares ages with. -/
structure PeerTimers where
  keepaliveInterval : Time := 25000
  deadTimeout : Time := 180000
deriving DecidableEq

namespace PeerManager

/-- Change the record of a known peer. -/
def modify (mgr : PeerManager) (nodeId : NodeId) (f : Peer → Peer) : PeerManager :=
  match mgr.peers.find? nodeId with
  | none => mgr
  | some peer => { mgr with peers := mgr.peers.insert nodeId (f peer) }

def markHolePunched (mgr : PeerManager) (now : Time) (nodeId : NodeId) (endpoint : Endpoint) : PeerManager :=
  mgr.modify nodeId fun peer => { peer with
    endpoint := some endpoint
    path := .holePunched
    connectedSince := if peer.state ≠ .established then now else peer.connectedSince
    lastSeen := now
    lastKeepalive := now
    state := .established }

def markConnecting (mgr : PeerManager) (nodeId : NodeId) : PeerManager :=
  mgr.modify nodeId fun peer => { peer with state := .connecting }

def markDead (mgr : PeerManager) (nodeId : NodeId) : PeerManager :=
  mgr.modify nodeId fun peer => { peer with state := .dead, path := .unknown }

def updateEndpoint (mgr : PeerManager) (now : Time) (nodeId : NodeId) (endpoint : Endpoint) : PeerManager :=
  mgr.modify nodeId fun peer => { peer with
    path := if peer.endpoint ≠ some endpoint then .unknown else peer.path
    endpoint := some endpoint
    lastSeen := now }

/-- `set_endpoint_candidates`, with whether the list was taken. -/
def setEndpointCandidates (mgr : PeerManager) (nodeId : NodeId) (candidates : List EndpointCandidate) :
    PeerManager × Bool :=
  if !acceptableCandidates candidates then (mgr, false)
  else
    (mgr.modify nodeId fun peer => { peer with endpointCandidates := candidates }, mgr.peers.contains nodeId)

end PeerManager

/-- The time from which the silence of a peer is counted. -/
def Peer.reference (peer : Peer) : Time := if peer.lastSeen ≠ 0 then peer.lastSeen else peer.createdAt

/-- The peer is not marked dead and was silent for the dead timeout. -/
def Peer.stale (timers : PeerTimers) (now : Time) (peer : Peer) : Bool :=
  peer.state ≠ .dead && timers.deadTimeout ≤ now - peer.reference

/-- The peer is established and was silent for the keep-alive interval. -/
def Peer.needsKeepalive (timers : PeerTimers) (now : Time) (peer : Peer) : Bool :=
  peer.state = .established && timers.keepaliveInterval ≤ now - peer.lastKeepalive

namespace PeerManager

def allPeers (mgr : PeerManager) : List Peer := mgr.peers.entries.map Prod.snd

def stalePeers (mgr : PeerManager) (timers : PeerTimers) (now : Time) : List Peer :=
  mgr.allPeers.filter (Peer.stale timers now)

def peersNeedingKeepalive (mgr : PeerManager) (timers : PeerTimers) (now : Time) : List Peer :=
  mgr.allPeers.filter (Peer.needsKeepalive timers now)

/-! ### What the operations do to the records -/

@[simp] theorem find?_modify (mgr : PeerManager) (nodeId id : NodeId) (f : Peer → Peer) :
    (mgr.modify nodeId f).peers.find? id = if id = nodeId then (mgr.peers.find? id).map f else mgr.peers.find? id := by
  unfold modify
  by_cases hid : id = nodeId
  · subst hid
    cases hfind : mgr.peers.find? id <;> simp [hfind]
  · cases mgr.peers.find? nodeId <;> simp [hid]

theorem mem_allPeers {mgr : PeerManager} {peer : Peer} :
    peer ∈ mgr.allPeers ↔ ∃ id, mgr.peers.find? id = some peer := by
  simp [allPeers, SortedMap.find?_eq_some_iff]

/-- Every record is stored under the id it names. -/
def Keyed (mgr : PeerManager) : Prop := ∀ id peer, mgr.peers.find? id = some peer → peer.nodeId = id

instance (mgr : PeerManager) : Decidable mgr.Keyed :=
  decidable_of_iff (∀ e ∈ mgr.peers.entries, e.2.nodeId = e.1)
    ⟨fun h id peer hpeer => h (id, peer) (SortedMap.find?_eq_some_iff.mp hpeer),
      fun h e he => h e.1 e.2 (SortedMap.find?_eq_some_iff.mpr he)⟩

theorem forall_find?_modify {P : NodeId → Peer → Prop} {mgr : PeerManager} {nodeId : NodeId} {f : Peer → Peer}
    (hf : ∀ peer, P nodeId peer → P nodeId (f peer)) (h : ∀ id peer, mgr.peers.find? id = some peer → P id peer) :
    ∀ id peer, (mgr.modify nodeId f).peers.find? id = some peer → P id peer := by
  intro id peer hpeer
  rw [find?_modify] at hpeer
  split_ifs at hpeer with hid
  · subst hid
    obtain ⟨old, hold, rfl⟩ := Option.map_eq_some_iff.mp hpeer
    exact hf old (h id old hold)
  · exact h id peer hpeer

theorem markSeen_eq_modify (mgr : PeerManager) (now : Time) (nodeId : NodeId) (endpoint : Option Endpoint) :
    mgr.markSeen now nodeId endpoint = mgr.modify nodeId fun peer => { peer with
      endpoint := endpoint.or peer.endpoint
      path := if endpoint.isSome && (peer.endpoint != endpoint || peer.path = .unknown) then .direct
        else peer.path
      connectedSince := if peer.state ≠ .established then now else peer.connectedSince
      lastKeepalive := now
      lastSeen := now
      state := .established } := rfl

theorem mem_stalePeers {mgr : PeerManager} {timers : PeerTimers} {now : Time} {peer : Peer} :
    peer ∈ mgr.stalePeers timers now ↔
      (∃ id, mgr.peers.find? id = some peer) ∧ peer.stale timers now = true := by
  rw [stalePeers, List.mem_filter, mem_allPeers]

theorem mem_peersNeedingKeepalive {mgr : PeerManager} {timers : PeerTimers} {now : Time} {peer : Peer} :
    peer ∈ mgr.peersNeedingKeepalive timers now ↔
      (∃ id, mgr.peers.find? id = some peer) ∧ peer.needsKeepalive timers now = true := by
  rw [peersNeedingKeepalive, List.mem_filter, mem_allPeers]

end PeerManager

theorem Peer.stale_iff {timers : PeerTimers} {now : Time} {peer : Peer} : peer.stale timers now = true ↔
    peer.state ≠ .dead ∧ timers.deadTimeout ≤ now - (if peer.lastSeen ≠ 0 then peer.lastSeen else peer.createdAt) := by
  simp [Peer.stale, Peer.reference]

end Aegis
