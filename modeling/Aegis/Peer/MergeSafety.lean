import Aegis.Peer.Liveness
import Aegis.Peer.MergeSteps

/-!
# What gossip cannot change

Over a whole merge: bound keys and trust are kept, no endpoint is set or changed, a key that appears is one
its id names, the table of peers keeps its bound and the configured routes stay exactly as they are. Every
route that is new after a merge is the relay route of one record of one accepted entry.
-/

namespace Aegis

namespace PeerManager

/-- No peer is lost, no bound key changes and no trust is withdrawn. -/
def Keeps (before after : PeerManager) : Prop :=
  ∀ id peer, before.peers.find? id = some peer → ∃ peer', after.peers.find? id = some peer' ∧
    (isEmptyKey peer.publicKey = false → peer'.publicKey = peer.publicKey) ∧
    (peer.trusted = true → peer'.trusted = true)

theorem Keeps.refl (mgr : PeerManager) : mgr.Keeps mgr := fun _ peer h => ⟨peer, h, fun _ => rfl, id⟩

theorem Keeps.trans {a b c : PeerManager} (hab : a.Keeps b) (hbc : b.Keeps c) : a.Keeps c := by
  intro id peer hpeer
  obtain ⟨peer', hpeer', hkey, htrust⟩ := hab id peer hpeer
  obtain ⟨peer'', hpeer'', hkey', htrust'⟩ := hbc id peer' hpeer'
  refine ⟨peer'', hpeer'', fun hbound => ?_, fun h => htrust' (htrust h)⟩
  rw [hkey' (by rw [hkey hbound, hbound]), hkey hbound]

theorem Keeps.binds {before after : PeerManager} (h : before.Keeps after) {id : NodeId} {publicKey : X25519Key}
    (hkey : isEmptyKey publicKey = false) (hbinds : before.Binds id publicKey) : after.Binds id publicKey := by
  obtain ⟨peer, hpeer, rfl⟩ := hbinds
  obtain ⟨peer', hpeer', hsame, -⟩ := h id peer hpeer
  exact ⟨peer', hpeer', hsame hkey⟩

theorem Binds.accepts {mgr : PeerManager} {id : NodeId} {publicKey : X25519Key} (h : mgr.Binds id publicKey) :
    mgr.accepts id publicKey = true := by
  obtain ⟨peer, hpeer, rfl⟩ := h
  simp [PeerManager.accepts, hpeer, conflicts]

/-- The active endpoint stored for a peer, if there is one. -/
def endpointOf (mgr : PeerManager) (id : NodeId) : Option Endpoint := (mgr.peers.find? id).bind Peer.endpoint

/-- Every key of `after` was there before, or its id is its hash. -/
def KeysFrom (hashPublicKey : X25519Key → NodeId) (before after : PeerManager) : Prop :=
  ∀ id peer', after.peers.find? id = some peer' →
    (∃ peer, before.peers.find? id = some peer ∧ peer'.publicKey = peer.publicKey) ∨
    (isEmptyKey peer'.publicKey = false ∧ hashPublicKey peer'.publicKey = id)

section Upsert

variable {mgr : PeerManager} {now : Time} {nodeId : NodeId} {publicKey : X25519Key}
  {endpoint : Option Endpoint} {trusted : Bool}

theorem keeps_upsert : mgr.Keeps (mgr.upsert now nodeId publicKey endpoint trusted).1 := by
  intro id peer hpeer
  by_cases hid : id = nodeId
  swap
  · exact ⟨peer, by rw [find?_upsert_of_ne hid, hpeer], fun _ => rfl, fun h => h⟩
  subst hid
  cases haccepts : mgr.accepts id publicKey with
  | false => exact ⟨peer, by rw [upsert_of_not_accepts haccepts, hpeer], fun _ => rfl, fun h => h⟩
  | true =>
    refine ⟨_, find?_upsert_self haccepts, fun hbound => ?_, fun htrusted => ?_⟩
    · simp [recordAfter, hpeer, hbound]
    · simp [recordAfter, hpeer, htrusted]

theorem endpointOf_upsert (id : NodeId) :
    (mgr.upsert now nodeId publicKey none trusted).1.endpointOf id = mgr.endpointOf id := by
  unfold endpointOf
  by_cases hid : id = nodeId
  swap
  · rw [find?_upsert_of_ne hid]
  subst hid
  cases haccepts : mgr.accepts id publicKey with
  | false => rw [upsert_of_not_accepts haccepts]
  | true =>
    rw [find?_upsert_self haccepts]
    cases hfind : mgr.peers.find? id <;> simp [recordAfter, hfind]

theorem keysFrom_upsert {hashPublicKey : X25519Key → NodeId} {before : PeerManager}
    (hkey : isEmptyKey publicKey = false) (hhash : hashPublicKey publicKey = nodeId)
    (h : KeysFrom hashPublicKey before mgr) :
    KeysFrom hashPublicKey before (mgr.upsert now nodeId publicKey endpoint trusted).1 := by
  intro id peer' hpeer'
  by_cases hid : id = nodeId
  swap
  · exact h id peer' (by rwa [find?_upsert_of_ne hid] at hpeer')
  subst hid
  cases haccepts : mgr.accepts id publicKey with
  | false => exact h id peer' (by rwa [upsert_of_not_accepts haccepts] at hpeer')
  | true =>
    rw [find?_upsert_self haccepts] at hpeer'
    obtain rfl := Option.some.inj hpeer'
    cases hfind : mgr.peers.find? id with
    | none =>
      right
      simp [recordAfter, hfind, hkey, hhash]
    | some peer =>
      cases hempty : isEmptyKey peer.publicKey with
      | true =>
        -- the placeholder is bound to the verified key
        right
        simp [recordAfter, hfind, hempty, hkey, hhash]
      | false =>
        have hsame : (mgr.recordAfter now id publicKey endpoint trusted).publicKey = peer.publicKey := by
          simp [recordAfter, hfind, hempty]
        rw [hsame]
        exact h id peer hfind

end Upsert

end PeerManager

section Merge

variable {hashPublicKey : X25519Key → NodeId} {ctx : MergeContext} {p : AdvertisedPeer}
  {record : AdvertisedPrefix} {re re' : RoutingEngine}

theorem mergeEntry_of_refused {s : Merge} (h : p.identityOk hashPublicKey = false ∨
      (s.peers.upsert ctx.now p.nodeId p.publicKey none false).2 = .identityConflict ∨
      (s.peers.upsert ctx.now p.nodeId p.publicKey none false).2 = .capacityRejected) :
    (mergeEntry hashPublicKey ctx s p).peers = s.peers ∧
      (mergeEntry hashPublicKey ctx s p).routing = s.routing := by
  rcases mergeEntry_cases hashPublicKey ctx s p with ⟨hpeers, hrouting, -⟩ | ⟨haccepted, haccepts, -⟩
  · exact ⟨hpeers, hrouting⟩
  · rcases PeerManager.upsert_cases s.peers ctx.now p.nodeId p.publicKey none false with
      ⟨hrefused, -⟩ | ⟨-, hconflict, hcapacity⟩
    · rw [haccepts] at hrefused
      cases hrefused
    · rcases h with h | h | h
      · rw [haccepted.identity] at h
        cases h
      · exact absurd h hconflict
      · exact absurd h hcapacity

theorem directRoutes_recordStep (h : RecordStep ctx p record re re') : re'.directRoutes = re.directRoutes := by
  cases h with
  | unusable | stale | inconsistent => rfl
  | refreshed | joined => exact RoutingEngine.directRoutes_addRoute rfl
  | superseded =>
    rw [RoutingEngine.directRoutes_addRoute rfl, RoutingEngine.directRoutes_removeOlderLearnedRoutes]

theorem mem_of_recordStep {r : Route} (h : RecordStep ctx p record re re') (hr : r ∈ re'.routes) :
    r ∈ re.routes ∨ (record.malformed = false ∧ p.pathOk ctx = true ∧
      r = { (p.route ctx record).candidate with probe := r.probe }) := by
  cases h with
  | unusable | stale | inconsistent => exact Or.inl hr
  | refreshed hrecord hpath | joined hrecord hpath =>
    exact (RoutingEngine.mem_addRoute hr).imp_right fun h => ⟨hrecord, hpath, h⟩
  | superseded hrecord hpath =>
    exact (RoutingEngine.mem_addRoute hr).imp RoutingEngine.mem_of_mem_removeOlderLearnedRoutes
      fun h => ⟨hrecord, hpath, h⟩

/-- The route comes from this record of this entry. -/
structure LearnedFrom (hashPublicKey : X25519Key → NodeId) (ctx : MergeContext) (p : AdvertisedPeer)
    (record : AdvertisedPrefix) (r : Route) : Prop where
  accepted : Accepted hashPublicKey ctx p
  record_mem : record ∈ p.prefixes
  wellFormed : record.malformed = false
  pathOk : p.pathOk ctx = true
  eq : r = { (p.route ctx record).candidate with probe := r.probe }

namespace LearnedFrom

variable {r : Route}

section

variable (h : LearnedFrom hashPublicKey ctx p record r)
include h

theorem type : r.type = .relay := by
  rw [h.eq]
  rfl

theorem nextHop : r.nextHop = ctx.sender := by
  rw [h.eq]
  rfl

theorem destination : r.destination = p.nodeId := by
  rw [h.eq]
  rfl

theorem path : r.path = p.relayPath ctx.sender := by
  rw [h.eq]
  rfl

end

end LearnedFrom

theorem mem_mergePeerTable {pm : PeerManager} {advertised : List AdvertisedPeer} {r : Route}
    (hr : r ∈ (mergePeerTable hashPublicKey ctx pm re advertised).routing.routes) :
    r ∈ re.routes ∨ ∃ p ∈ advertised, ∃ record, LearnedFrom hashPublicKey ctx p record r ∧
      (mergePeerTable hashPublicKey ctx pm re advertised).peers.Binds p.nodeId p.publicKey := by
  have hkept : KeptByMerge hashPublicKey ctx advertised fun pm' re' => ∀ r ∈ re'.routes, r ∈ re.routes ∨
      ∃ p ∈ advertised, ∃ record, LearnedFrom hashPublicKey ctx p record r ∧ pm'.Binds p.nodeId p.publicKey := by
    constructor
    · intro _ _ _ _ _ _ hinv r hr
      refine (hinv r hr).imp_right ?_
      rintro ⟨p, hp, record, hlearned, hbinds⟩
      exact ⟨p, hp, record, hlearned, PeerManager.keeps_upsert.binds hlearned.accepted.key.1 hbinds⟩
    · intro _ _ _ p hp haccepted hbinds record hmem hstep hinv r hr
      rcases mem_of_recordStep hstep hr with hr | ⟨hrecord, hpath, heq⟩
      · exact hinv r hr
      · exact Or.inr ⟨p, hp, record, ⟨haccepted, hmem, hrecord, hpath, heq⟩, hbinds⟩
  exact hkept.merge (fun r hr => Or.inl hr) r hr

section Tables

variable (hashPublicKey : X25519Key → NodeId) (ctx : MergeContext) (pm : PeerManager) (re : RoutingEngine)
  (advertised : List AdvertisedPeer)

theorem keeps_merge : pm.Keeps (mergePeerTable hashPublicKey ctx pm re advertised).peers :=
  mergePeerTable_induction (fun pm' _ => pm.Keeps pm')
    (fun _ _ _ _ _ _ hinv => hinv.trans PeerManager.keeps_upsert)
    (fun _ _ _ _ _ _ _ _ _ hinv => hinv) (PeerManager.Keeps.refl pm)

theorem endpointOf_merge (id : NodeId) :
    (mergePeerTable hashPublicKey ctx pm re advertised).peers.endpointOf id = pm.endpointOf id :=
  mergePeerTable_induction (fun pm' _ => pm'.endpointOf id = pm.endpointOf id)
    (fun _ _ _ _ _ _ hinv => (PeerManager.endpointOf_upsert id).trans hinv)
    (fun _ _ _ _ _ _ _ _ _ hinv => hinv) rfl

theorem keysFrom_merge :
    PeerManager.KeysFrom hashPublicKey pm (mergePeerTable hashPublicKey ctx pm re advertised).peers :=
  mergePeerTable_induction (fun pm' _ => PeerManager.KeysFrom hashPublicKey pm pm')
    (fun _ _ _ _ haccepted _ hinv => PeerManager.keysFrom_upsert haccepted.key.1 haccepted.key.2 hinv)
    (fun _ _ _ _ _ _ _ _ _ hinv => hinv) (fun _ peer h => Or.inl ⟨peer, h, rfl⟩)

theorem directRoutes_merge :
    (mergePeerTable hashPublicKey ctx pm re advertised).routing.directRoutes = re.directRoutes :=
  mergePeerTable_induction (fun _ re' => re'.directRoutes = re.directRoutes)
    (fun _ _ _ _ _ _ hinv => hinv)
    (fun _ _ _ _ _ _ _ _ hstep hinv => (directRoutes_recordStep hstep).trans hinv) rfl

theorem maxPeers_merge : (mergePeerTable hashPublicKey ctx pm re advertised).peers.maxPeers = pm.maxPeers :=
  mergePeerTable_induction (fun pm' _ => pm'.maxPeers = pm.maxPeers)
    (fun _ _ _ _ _ _ hinv => PeerManager.upsert_maxPeers.trans hinv)
    (fun _ _ _ _ _ _ _ _ _ hinv => hinv) rfl

theorem size_merge_le (h : pm.peers.size ≤ pm.maxPeers) :
    (mergePeerTable hashPublicKey ctx pm re advertised).peers.peers.size ≤
      (mergePeerTable hashPublicKey ctx pm re advertised).peers.maxPeers :=
  mergePeerTable_induction (fun pm' _ => pm'.peers.size ≤ pm'.maxPeers)
    (fun _ _ _ _ _ _ hinv => (PeerManager.size_upsert_le hinv).trans PeerManager.upsert_maxPeers.ge)
    (fun _ _ _ _ _ _ _ _ _ hinv => hinv) h

end Tables

end Merge

end Aegis
