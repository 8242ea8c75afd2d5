import Aegis.Lib.SortedMap
import Aegis.Protocol.EndpointCandidate

/-!
# The peer table

`peer/peer.cpp`: the records of known peers. A non-empty public key in a record is a binding that no later
`upsert` changes, and a new record needs room in the table. The connect attempts of a record are used by no
operation here and left out.
-/

namespace Aegis

inductive PeerState where
  | unknown
  | discovering
  | connecting
  | established
  | dead
deriving DecidableEq

inductive PeerPath where
  | unknown
  | direct
  | holePunched
deriving DecidableEq

inductive PeerUpsertResult where
  | inserted
  | updated
  | identityBound
  | identityConflict
  | capacityRejected
deriving DecidableEq

structure Peer where
  nodeId : NodeId
  publicKey : X25519Key
  endpoint : Option Endpoint
  endpointCandidates : List EndpointCandidate := []
  state : PeerState := .unknown
  path : PeerPath := .unknown
  createdAt : Time := 0
  lastSeen : Time := 0
  lastKeepalive : Time := 0
  connectedSince : Time := 0
  trusted : Bool := false
deriving DecidableEq

def PEER_MANAGER_MAX_PEERS : Nat := 256

structure PeerManager where
  maxPeers : Nat := PEER_MANAGER_MAX_PEERS
  peers : SortedMap NodeId Peer := ∅
deriving DecidableEq

def isEmptyKey (key : X25519Key) : Bool := key == FixedBytes.zero 32

namespace PeerManager

def conflicts (peer : Peer) (publicKey : X25519Key) : Bool :=
  !isEmptyKey peer.publicKey && !isEmptyKey publicKey && peer.publicKey != publicKey

def upsert (mgr : PeerManager) (now : Time) (nodeId : NodeId) (publicKey : X25519Key)
    (endpoint : Option Endpoint) (trusted : Bool) : PeerManager × PeerUpsertResult :=
  match mgr.peers.find? nodeId with
  | some peer =>
    if conflicts peer publicKey then (mgr, .identityConflict)
    else
      let bound := isEmptyKey peer.publicKey && !isEmptyKey publicKey
      let peer' := { peer with
        publicKey := if bound then publicKey else peer.publicKey
        endpoint := endpoint.or peer.endpoint
        trusted := peer.trusted || trusted }
      ({ mgr with peers := mgr.peers.insert nodeId peer' }, if bound then .identityBound else .updated)
  | none =>
    if mgr.maxPeers ≤ mgr.peers.size then (mgr, .capacityRejected)
    else
      let peer : Peer :=
        { nodeId := nodeId, publicKey := publicKey, endpoint := endpoint, trusted := trusted, createdAt := now }
      ({ mgr with peers := mgr.peers.insert nodeId peer }, .inserted)

def markSeen (mgr : PeerManager) (now : Time) (nodeId : NodeId) (endpoint : Option Endpoint) : PeerManager :=
  match mgr.peers.find? nodeId with
  | none => mgr
  | some peer =>
    let moved := endpoint.isSome && (peer.endpoint != endpoint || peer.path = .unknown)
    let peer' := { peer with
      endpoint := endpoint.or peer.endpoint
      path := if moved then .direct else peer.path
      connectedSince := if peer.state ≠ .established then now else peer.connectedSince
      lastKeepalive := now
      lastSeen := now
      state := .established }
    { mgr with peers := mgr.peers.insert nodeId peer' }

/-- The record can be written: its key is not bound to another value, or there is room for it. -/
def accepts (mgr : PeerManager) (nodeId : NodeId) (publicKey : X25519Key) : Bool :=
  match mgr.peers.find? nodeId with
  | some peer => !conflicts peer publicKey
  | none => mgr.peers.size < mgr.maxPeers

/-- An `upsert` is refused, and changes nothing, exactly when the record cannot be written. -/
theorem upsert_cases (mgr : PeerManager) (now : Time) (nodeId : NodeId) (publicKey : X25519Key)
    (endpoint : Option Endpoint) (trusted : Bool) :
    (mgr.accepts nodeId publicKey = false ∧
      (mgr.upsert now nodeId publicKey endpoint trusted = (mgr, .identityConflict) ∨
        mgr.upsert now nodeId publicKey endpoint trusted = (mgr, .capacityRejected))) ∨
    (mgr.accepts nodeId publicKey = true ∧
      (mgr.upsert now nodeId publicKey endpoint trusted).2 ≠ .identityConflict ∧
      (mgr.upsert now nodeId publicKey endpoint trusted).2 ≠ .capacityRejected) := by
  unfold accepts upsert
  cases mgr.peers.find? nodeId with
  | some peer =>
    cases hconflict : conflicts peer publicKey with
    | true => exact Or.inl ⟨by simp [hconflict], Or.inl (by simp [hconflict])⟩
    | false =>
      right
      simp only [hconflict, Bool.not_false, Bool.false_eq_true, if_false, true_and]
      split_ifs <;> simp
  | none =>
    by_cases hfull : mgr.maxPeers ≤ mgr.peers.size
    · exact Or.inl ⟨by simp [hfull], Or.inr (by simp [hfull])⟩
    · exact Or.inr ⟨by simp [not_le.mp hfull], by simp [hfull], by simp [hfull]⟩

/-- The record an accepted `upsert` leaves under the id. -/
def recordAfter (mgr : PeerManager) (now : Time) (nodeId : NodeId) (publicKey : X25519Key)
    (endpoint : Option Endpoint) (trusted : Bool) : Peer :=
  match mgr.peers.find? nodeId with
  | some peer => { peer with
      publicKey := if isEmptyKey peer.publicKey && !isEmptyKey publicKey then publicKey else peer.publicKey
      endpoint := endpoint.or peer.endpoint
      trusted := peer.trusted || trusted }
  | none =>
    { nodeId := nodeId, publicKey := publicKey, endpoint := endpoint, trusted := trusted, createdAt := now }

section Upsert

variable {mgr : PeerManager} {now : Time} {nodeId : NodeId} {publicKey : X25519Key}
  {endpoint : Option Endpoint} {trusted : Bool}

theorem upsert_of_accepts (h : mgr.accepts nodeId publicKey = true) :
    (mgr.upsert now nodeId publicKey endpoint trusted).1 =
      { mgr with peers := mgr.peers.insert nodeId (mgr.recordAfter now nodeId publicKey endpoint trusted) } := by
  unfold accepts at h
  unfold upsert recordAfter
  cases hfind : mgr.peers.find? nodeId with
  | some peer =>
    have hconflict : conflicts peer publicKey = false := by simpa [hfind] using h
    simp [hconflict]
  | none =>
    have hroom : mgr.peers.size < mgr.maxPeers := by simpa [hfind] using h
    simp [not_le.mpr hroom]

theorem upsert_of_not_accepts (h : mgr.accepts nodeId publicKey = false) :
    (mgr.upsert now nodeId publicKey endpoint trusted).1 = mgr := by
  rcases upsert_cases mgr now nodeId publicKey endpoint trusted with ⟨-, heq | heq⟩ | ⟨hok, -⟩
  · rw [heq]
  · rw [heq]
  · rw [h] at hok
    cases hok

theorem find?_upsert_of_ne {id : NodeId} (h : id ≠ nodeId) :
    (mgr.upsert now nodeId publicKey endpoint trusted).1.peers.find? id = mgr.peers.find? id := by
  cases hok : mgr.accepts nodeId publicKey with
  | true => simp [upsert_of_accepts hok, h]
  | false => rw [upsert_of_not_accepts hok]

theorem find?_upsert_self (h : mgr.accepts nodeId publicKey = true) :
    (mgr.upsert now nodeId publicKey endpoint trusted).1.peers.find? nodeId =
      some (mgr.recordAfter now nodeId publicKey endpoint trusted) := by
  simp [upsert_of_accepts h]

theorem find?_upsert_of_some {id : NodeId} {peer : Peer} (h : mgr.peers.find? id = some peer) :
    ∃ peer', (mgr.upsert now nodeId publicKey endpoint trusted).1.peers.find? id = some peer' ∧
      peer' = { peer with publicKey := peer'.publicKey, endpoint := peer'.endpoint, trusted := peer'.trusted } := by
  by_cases hid : id = nodeId
  swap
  · exact ⟨peer, by rw [find?_upsert_of_ne hid, h], rfl⟩
  subst hid
  cases hok : mgr.accepts id publicKey with
  | false => exact ⟨peer, by rw [upsert_of_not_accepts hok, h], rfl⟩
  | true =>
    refine ⟨_, find?_upsert_self hok, ?_⟩
    simp only [recordAfter, h]

@[simp] theorem upsert_maxPeers : (mgr.upsert now nodeId publicKey endpoint trusted).1.maxPeers = mgr.maxPeers := by
  cases hok : mgr.accepts nodeId publicKey with
  | true => rw [upsert_of_accepts hok]
  | false => rw [upsert_of_not_accepts hok]

theorem size_upsert_le (h : mgr.peers.size ≤ mgr.maxPeers) :
    (mgr.upsert now nodeId publicKey endpoint trusted).1.peers.size ≤ mgr.maxPeers := by
  cases hok : mgr.accepts nodeId publicKey with
  | false => rwa [upsert_of_not_accepts hok]
  | true =>
    rw [upsert_of_accepts hok]
    cases hfind : mgr.peers.find? nodeId with
    | some peer =>
      exact (SortedMap.size_insert_of_contains _ (SortedMap.contains_of_find? hfind)).trans h
    | none =>
      have hroom : mgr.peers.size < mgr.maxPeers := by simpa [accepts, hfind] using hok
      exact (SortedMap.size_insert_le _ _ _).trans hroom

end Upsert

end PeerManager

end Aegis
