import Aegis.Tunnel.Advertise

/-!
# Leases along gossip chains

`build_advertised_peers` sends what is left of a learned route's lease, in whole seconds: it subtracts the whole
seconds that have passed, so what it sends ends less than a second after the route does. The receiver takes the
lease as it stands from the moment it merges the table. A chain of nodes that learn from each other thus moves the
end of a lease by less than a second per link.

A route whose validation time is the clock's epoch counts as never validated and is sent with its full lease, so
the routes here have another one.
-/

namespace Aegis

/-- When the lease of a learned route ends. -/
def Route.expiry (r : Route) : Time := r.validatedAt + r.lease * 1000

/-- A learned route that has not expired, with a validation time that is set and past. -/
structure Route.Current (r : Route) (now : Time) : Prop where
  relay : r.type = .relay
  unexpired : learnedRouteLeaseExpired r now = false
  validated : r.validatedAt ≠ 0
  past : r.validatedAt ≤ now

theorem remaining_bounds {second elapsed lease : Int} (hsecond : 0 < second) (helapsed : 0 ≤ elapsed)
    (hunexpired : elapsed < lease * second) :
    1 ≤ lease - elapsed / second ∧ lease - elapsed / second ≤ lease ∧
      elapsed + (lease - elapsed / second) * second < (lease + 1) * second := by
  have hwhole : elapsed / second < lease := Int.ediv_lt_of_lt_mul hsecond hunexpired
  have hnonneg : 0 ≤ elapsed / second := Int.ediv_nonneg helapsed hsecond.le
  have hrest : elapsed < (elapsed / second + 1) * second := Int.lt_ediv_add_one_mul_self elapsed hsecond
  refine ⟨by omega, by omega, ?_⟩
  calc elapsed + (lease - elapsed / second) * second
      < (elapsed / second + 1) * second + (lease - elapsed / second) * second := by omega
    _ = (lease + 1) * second := by ring

namespace Advertiser

open Overlay (sampleNodeId)

theorem remainingLease_of_current {now : Time} {r : Route} (h : r.Current now) :
    remainingLease now r = r.lease - (now - r.validatedAt) / 1000 := by
  have hpast := h.past
  unfold remainingLease
  rw [if_pos ⟨h.relay, h.validated⟩, Int.tdiv_eq_ediv_of_nonneg (by lia)]
  dsimp only
  split_ifs <;> lia

theorem leaseSeconds_advertisedRecord {now : Time} {r : Route} (hvalid : r.Valid) (h : r.Current now) :
    1 ≤ (advertisedRecord now r).leaseSeconds.toNat ∧ (advertisedRecord now r).leaseSeconds.toNat ≤ 600 ∧
      now + (advertisedRecord now r).leaseSeconds.toNat * 1000 < r.expiry + 1000 := by
  have hlimits := hvalid.limits
  simp only [Route.withinLimits, Bool.and_eq_true, decide_eq_true_eq, ROUTE_MAX_LEASE] at hlimits
  have hpast := h.past
  have hunexpired : now - r.validatedAt < r.lease * 1000 := by
    have hexpired := h.unexpired
    simp only [learnedRouteLeaseExpired, h.relay, decide_true, Bool.true_and, Bool.and_eq_false_iff,
      decide_eq_false_iff_not] at hexpired
    lia
  obtain ⟨hpositive, hless, hend⟩ := remaining_bounds (by decide) (by lia) hunexpired
  have hword : ((advertisedRecord now r).leaseSeconds.toNat : Int) = r.lease - (now - r.validatedAt) / 1000 := by
    show ((UInt32.ofInt (remainingLease now r)).toNat : Int) = _
    rw [remainingLease_of_current h]
    simp only [UInt32.ofInt, UInt32.toNat_ofNat']
    lia
  unfold Route.expiry
  lia

/-- The part of an entry that a batch carries: some of its records. -/
structure PartOf (part entry : AdvertisedPeer) : Prop where
  nodeId : part.nodeId = entry.nodeId
  publicKey : part.publicKey = entry.publicKey
  path : part.path = entry.path
  prefixes : part.prefixes.Sublist entry.prefixes

/-- One link of a gossip chain: a node advertises its learned route `r`, and another node that merges what it is
sent, at the time of sending, then holds `r'`, learned from the record of `r`. -/
def Readvertised (hashPublicKey : X25519Key → NodeId) (r r' : Route) : Prop :=
  ∃ (node : Advertiser) (s : Overlay) (now : Time) (ctx : MergeContext) (pm : PeerManager) (re : RoutingEngine)
    (table : List AdvertisedPeer),
    r ∈ s.routing.routes ∧ r.Current now ∧
    (∀ part ∈ table, ∃ entry ∈ node.buildAdvertisedPeers now s, PartOf part entry) ∧
    ctx.sender = node.nodeId ∧ ctx.validatedAt = now ∧
    r' ∈ (mergePeerTable hashPublicKey ctx pm re table).routing.routes ∧
    ∃ part ∈ table, LearnedFrom hashPublicKey ctx part (advertisedRecord now r) r'

theorem Readvertised.expiry_lt {hashPublicKey : X25519Key → NodeId} {r r' : Route}
    (h : Readvertised hashPublicKey r r') : r'.expiry < r.expiry + 1000 := by
  obtain ⟨node, s, now, ctx, pm, re, table, hr, hcurrent, -, -, hmerged, -, part, -, hlearned⟩ := h
  have hbound := (leaseSeconds_advertisedRecord (s.routing.invariant.valid r hr) hcurrent).2.2
  have hexpiry : r'.expiry = now + (advertisedRecord now r).leaseSeconds.toNat * 1000 := by
    rw [hlearned.eq, ← hmerged]
    rfl
  rw [hexpiry]
  exact hbound

theorem expiry_chain {hashPublicKey : X25519Key → NodeId} {first : Route} {learned : List Route}
    (hchain : List.IsChain (Readvertised hashPublicKey) (first :: learned)) {i : Nat} {r : Route}
    (hr : learned[i]? = some r) : r.expiry < first.expiry + (i + 1) * 1000 := by
  induction learned generalizing first i with
  | nil => simp at hr
  | cons second learned ih =>
    obtain ⟨hfirst, hrest⟩ := List.isChain_cons_cons.mp hchain
    have hlink := hfirst.expiry_lt
    cases i with
    | zero =>
      obtain rfl : second = r := Option.some.inj hr
      lia
    | succ i =>
      have hlater := ih hrest hr
      lia

/-- Leases do not grow along gossip chains: a learned route is advertised, in the entry of its destination, with a
lease of 1 to 600 seconds that ends less than a second after the route's own, and the route of the `k`-th receiver
of a chain ends less than `k` seconds after the first. -/
theorem lease_chain_bounded (hashPublicKey : X25519Key → NodeId) :
    (∀ (node : Advertiser) (now : Time) (s : Overlay), ∀ r ∈ s.routing.routes, r.Current now →
      ∀ p ∈ node.buildAdvertisedPeers now s, p.nodeId ≠ node.nodeId → p.nodeId = r.destination →
        ∃ record ∈ p.prefixes, record = advertisedRecord now r ∧ 1 ≤ record.leaseSeconds.toNat ∧
          record.leaseSeconds.toNat ≤ 600 ∧
          now + record.leaseSeconds.toNat * 1000 < r.validatedAt + r.lease * 1000 + 1000) ∧
    (∀ first learned, List.IsChain (Readvertised hashPublicKey) (first :: learned) →
      ∀ (k : Nat) (r : Route), 1 ≤ k → learned[k - 1]? = some r → r.expiry < first.expiry + k * 1000) := by
  refine ⟨fun node now s r hr hcurrent p hp hother hdestination => ?_, fun first learned hchain k r hk hget => ?_⟩
  · obtain ⟨id, peer, -, rfl⟩ := mem_buildAdvertisedPeers hp hother
    have hbacking : r ∈ backing now s.routing.routes peer.nodeId := by
      rw [advertisedEntry_eq] at hdestination
      exact mem_backing.mpr ⟨hr, hdestination.symm, hcurrent.unexpired⟩
    refine ⟨advertisedRecord now r, ?_, rfl, leaseSeconds_advertisedRecord (s.routing.invariant.valid r hr) hcurrent⟩
    rw [advertisedEntry_eq]
    exact List.mem_map_of_mem hbacking
  · have hbound := expiry_chain hchain hget
    rw [show ((k - 1 : Nat) : Int) + 1 = k by omega] at hbound
    exact hbound

/-- Node 4 learns from node 1 what node 1 has learned from node 2. -/
example :
    let s := Overlay.run (fun key => key) {} {} twoPrefixes
    let ctx : MergeContext := { self := sampleNodeId 4, sender := sampleNodeId 1, now := 1500, validatedAt := 1500 }
    let merged := mergePeerTable (fun key => key) ctx {} {} (sampleAdvertiser.buildAdvertisedPeers 1500 s)
    ∃ r ∈ s.routing.routes, ∃ r' ∈ merged.routing.routes, Readvertised (fun key => key) r r' ∧
      r.expiry = 90003 ∧ r'.expiry = 90500 := by
  intro s ctx merged
  have hheld : ∃ r ∈ s.routing.routes, ∃ r' ∈ merged.routing.routes,
      (r.type = .relay ∧ learnedRouteLeaseExpired r 1500 = false ∧ r.validatedAt ≠ 0 ∧ r.validatedAt ≤ 1500) ∧
      (∃ part ∈ sampleAdvertiser.buildAdvertisedPeers 1500 s, part.nodeId ≠ ctx.self ∧ part.nodeId ≠ ctx.sender ∧
        part.identityOk (fun key => key) = true ∧ advertisedRecord 1500 r ∈ part.prefixes ∧
        (advertisedRecord 1500 r).malformed = false ∧ part.pathOk ctx = true ∧
        r' = { (part.route ctx (advertisedRecord 1500 r)).candidate with probe := r'.probe }) ∧
      r.expiry = 90003 ∧ r'.expiry = 90500 := by
    decide +kernel
  obtain ⟨r, hr, r', hr', ⟨hrelay, hexpired, hset, hpast⟩, ⟨part, hpart, hself, hsender, hidentity, hrecord, hformed,
    hpath, heq⟩, hexpiry⟩ := hheld
  refine ⟨r, hr, r', hr', ⟨sampleAdvertiser, s, 1500, ctx, {}, {}, _, hr, ⟨hrelay, hexpired, hset, hpast⟩, ?_, rfl,
    rfl, hr', part, hpart, ⟨⟨hself, hsender, hidentity⟩, hrecord, hformed, hpath, heq⟩⟩, hexpiry⟩
  exact fun entry hentry => ⟨entry, hentry, rfl, rfl, rfl, List.Sublist.refl _⟩

end Advertiser

end Aegis
