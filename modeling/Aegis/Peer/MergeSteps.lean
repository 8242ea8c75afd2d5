import Aegis.Lib.Run
import Aegis.Peer.Table

/-!
# What a merge can do

One iteration of the loop over an entry's records changes the routing engine in one of the ways of
`RecordStep`, and one iteration of the loop over the entries either changes nothing or writes the peer's
record and then handles its records. `mergePeerTable_induction` is the induction over a whole merge that
the properties of merges are proved with.
-/

namespace Aegis

variable {hashPublicKey : X25519Key → NodeId} {ctx : MergeContext} {p : AdvertisedPeer}
  {record : AdvertisedPrefix}

/-! ### The route of a record -/

theorem canonicalPrefix_toUInt32 (network : IPAddress) (length : UInt8) :
    canonicalPrefix network length.toUInt32 = (IPPrefix.of network length).address := by
  rw [canonicalPrefix, UInt8.toUInt8_toUInt32]

theorem candidate_route (ctx : MergeContext) (p : AdvertisedPeer) (record : AdvertisedPrefix) :
    (p.route ctx record).candidate = { p.route ctx record with network := record.canonical } := by
  have horigin : (p.route ctx record).candidate.origin = p.nodeId := ite_self _
  have hadvertiser : (p.route ctx record).candidate.advertiser = ctx.sender := ite_self _
  have hnetwork : (p.route ctx record).candidate.network = record.canonical :=
    canonicalPrefix_toUInt32 record.network record.prefixLength
  rw [← hnetwork]
  simp only [Route.candidate] at horigin hadvertiser ⊢
  rw [horigin, hadvertiser]
  rfl

/-- The entry is not about the two nodes of the exchange and its identity is usable. -/
structure Accepted (hashPublicKey : X25519Key → NodeId) (ctx : MergeContext) (p : AdvertisedPeer) : Prop where
  ne_self : p.nodeId ≠ ctx.self
  ne_sender : p.nodeId ≠ ctx.sender
  identity : p.identityOk hashPublicKey = true

theorem AdvertisedPeer.relayPath_of_pathOk (h : p.pathOk ctx = true) :
    (p.relayPath ctx.sender).getLast? = some p.nodeId ∧ ctx.self ∉ p.relayPath ctx.sender ∧
      (p.relayPath ctx.sender).Nodup := by
  simpa [AdvertisedPeer.pathOk, and_assoc] using h

theorem AdvertisedPeer.hops_ne_nil (p : AdvertisedPeer) : p.hops ≠ [] := by
  unfold AdvertisedPeer.hops
  split_ifs with h
  · simp
  · exact h

theorem AdvertisedPrefix.of_malformed_eq_false (h : record.malformed = false) :
    record.prefixLength.toNat ≤ record.network.bitWidth ∧ record.sequenceNumber ≠ 0 ∧
      0 < record.leaseSeconds.toNat ∧ record.leaseSeconds.toNat ≤ 600 ∧ record.metric.toNat < 1000000 := by
  simp only [AdvertisedPrefix.malformed, Bool.or_eq_false_iff, decide_eq_false_iff_not, not_lt, not_le] at h
  obtain ⟨⟨⟨⟨hlength, hsequence⟩, hlease⟩, hmax⟩, hmetric⟩ := h
  refine ⟨hlength, hsequence, ?_, ?_, ?_⟩
  · exact Nat.pos_of_ne_zero fun hzero => hlease (UInt32.toNat_inj.mp hzero)
  · exact Int.ofNat_le.mp hmax
  · exact UInt32.lt_iff_toNat_lt.mp hmetric

theorem AdvertisedPrefix.validPrefixLength_of_wellFormed (h : record.malformed = false) :
    validPrefixLength record.network record.prefixLength.toUInt32 = true := by
  simpa [validPrefixLength] using (AdvertisedPrefix.of_malformed_eq_false h).1

theorem route_addable (hne : p.nodeId ≠ ctx.sender) (hrecord : record.malformed = false) (hpath : p.pathOk ctx = true) :
    (p.route ctx record).wellShaped = true ∧ (p.route ctx record).candidate.withinLimits = true := by
  obtain ⟨hlast, -, hnodup⟩ := AdvertisedPeer.relayPath_of_pathOk hpath
  obtain ⟨-, hsequence, hpos, hmax, hmetric⟩ := AdvertisedPrefix.of_malformed_eq_false hrecord
  have htwo : 2 ≤ (p.relayPath ctx.sender).length :=
    Nat.succ_le_succ (List.length_pos_of_ne_nil p.hops_ne_nil)
  constructor
  · have hfree : (p.route ctx record).loopFree = true := by
      have hhead : (p.relayPath ctx.sender).head? = some ctx.sender := rfl
      simp [Route.loopFree, AdvertisedPeer.route, htwo, hhead, hlast, hnodup]
    have hvalid := AdvertisedPrefix.validPrefixLength_of_wellFormed hrecord
    have hhop : ctx.sender ≠ p.nodeId := hne.symm
    rw [Route.wellShaped, hfree]
    simp [AdvertisedPeer.route, hvalid, hhop]
  · rw [candidate_route]
    have hsum : (record.metric + 1).toNat = record.metric.toNat + 1 := by
      rw [UInt32.toNat_add]
      exact Nat.mod_eq_of_lt (by simp; omega)
    have hle : record.metric + 1 ≤ ROUTE_MAX_METRIC := by
      rw [UInt32.le_iff_toNat_le, hsum]
      exact hmetric
    simp [Route.withinLimits, AdvertisedPeer.route, hsequence, hle, ROUTE_MAX_LEASE]
    omega

/-! ### The highest sequence number -/

section HighestSequence

variable {routes : List Route} {origin : NodeId} {network : IPAddress} {prefixLength : UInt32}

private theorem highestSequence_fold (routes : List Route) (start : UInt64) :
    start ≤ routes.foldl (fun highest candidate =>
        if RoutingEngine.isLearned origin network prefixLength candidate then max highest candidate.sequenceNumber
        else highest) start ∧
    ∀ r ∈ routes, RoutingEngine.isLearned origin network prefixLength r = true →
      r.sequenceNumber ≤ routes.foldl (fun highest candidate =>
        if RoutingEngine.isLearned origin network prefixLength candidate then max highest candidate.sequenceNumber
        else highest) start := by
  induction routes generalizing start with
  | nil => simp
  | cons a routes ih =>
    obtain ⟨hstart, hrest⟩ := ih (if RoutingEngine.isLearned origin network prefixLength a then
      max start a.sequenceNumber else start)
    rw [List.foldl_cons]
    refine ⟨le_trans ?_ hstart, fun r hr hlearned => ?_⟩
    · split_ifs
      · exact le_max_left _ _
      · exact le_refl _
    · rcases List.mem_cons.mp hr with rfl | hr
      · refine le_trans ?_ hstart
        rw [if_pos hlearned]
        exact le_max_right _ _
      · exact hrest r hr hlearned

theorem le_highestSequence {r : Route} (hr : r ∈ routes)
    (hlearned : RoutingEngine.isLearned origin network prefixLength r = true) :
    r.sequenceNumber ≤ highestSequence routes origin network prefixLength :=
  (highestSequence_fold routes 0).2 r hr hlearned

theorem highestSequence_eq (routes : List Route) (origin : NodeId) (network : IPAddress) (prefixLength : UInt32) :
    highestSequence routes origin network prefixLength = 0 ∨
      ∃ r ∈ routes, RoutingEngine.isLearned origin network prefixLength r = true ∧
        r.sequenceNumber = highestSequence routes origin network prefixLength := by
  unfold highestSequence
  -- the accumulator is zero or the number of a route already seen
  refine Run.invariant_of_mem (fun highest => highest = 0 ∨ ∃ r ∈ routes,
    RoutingEngine.isLearned origin network prefixLength r = true ∧ r.sequenceNumber = highest) ?_ (Or.inl rfl)
  intro highest a ha hinv
  split_ifs with hlearned
  · rcases le_total highest a.sequenceNumber with hle | hle
    · rw [max_eq_right hle]
      exact Or.inr ⟨a, ha, hlearned, rfl⟩
    · rwa [max_eq_left hle]
  · exact hinv

end HighestSequence

/-! ### One record -/

/-- What the handling of one record does to the routing engine, and when. -/
inductive RecordStep (ctx : MergeContext) (p : AdvertisedPeer) (record : AdvertisedPrefix) (re : RoutingEngine) :
    RoutingEngine → Prop
  /-- The record or the path is not usable. -/
  | unusable (h : record.malformed = true ∨ p.pathOk ctx = false) : RecordStep ctx p record re re
  /-- A newer sequence number is known. -/
  | stale (hrecord : record.malformed = false) (hpath : p.pathOk ctx = true)
      (h : record.sequenceNumber <
        highestSequence re.routes p.nodeId record.canonical record.prefixLength.toUInt32) :
      RecordStep ctx p record re re
  /-- The candidate is known under this sequence number with another path or metric. -/
  | inconsistent (hrecord : record.malformed = false) (hpath : p.pathOk ctx = true) (existing : Route)
      (hfind : re.routes.find? (fun r => r.key = (p.route ctx record).candidate.key) = some existing)
      (hsequence : record.sequenceNumber = existing.sequenceNumber)
      (h : p.relayPath ctx.sender ≠ existing.path ∨ record.metric + 1 ≠ existing.metric) :
      RecordStep ctx p record re re
  /-- The candidate is known under this sequence number, unchanged. -/
  | refreshed (hrecord : record.malformed = false) (hpath : p.pathOk ctx = true)
      (hhighest : highestSequence re.routes p.nodeId record.canonical record.prefixLength.toUInt32 ≤
        record.sequenceNumber) (existing : Route)
      (hfind : re.routes.find? (fun r => r.key = (p.route ctx record).candidate.key) = some existing)
      (hsequence : record.sequenceNumber = existing.sequenceNumber)
      (hsame : p.relayPath ctx.sender = existing.path) :
      RecordStep ctx p record re (re.addRoute (p.route ctx record)).1
  /-- Another candidate under the highest sequence number. -/
  | joined (hrecord : record.malformed = false) (hpath : p.pathOk ctx = true)
      (hhighest : highestSequence re.routes p.nodeId record.canonical record.prefixLength.toUInt32 =
        record.sequenceNumber)
      (hnew : ∀ existing,
        re.routes.find? (fun r => r.key = (p.route ctx record).candidate.key) = some existing →
        record.sequenceNumber ≠ existing.sequenceNumber) :
      RecordStep ctx p record re (re.addRoute (p.route ctx record)).1
  /-- A newer sequence number: older candidates of the origin's prefix make place. -/
  | superseded (hrecord : record.malformed = false) (hpath : p.pathOk ctx = true)
      (hhighest : highestSequence re.routes p.nodeId record.canonical record.prefixLength.toUInt32 <
        record.sequenceNumber) :
      RecordStep ctx p record re
        ((re.removeOlderLearnedRoutes p.nodeId record.network record.prefixLength.toUInt32
          record.sequenceNumber).1.addRoute (p.route ctx record)).1

theorem routing_installLearned (s : RecordMerge) (route : Route) (highest : UInt64) :
    (installLearned s route highest).routing =
      ((if highest < route.sequenceNumber then
        (s.routing.removeOlderLearnedRoutes route.origin route.network route.prefixLength
          route.sequenceNumber).1
      else s.routing).addRoute route).1 := by
  simp only [installLearned]
  by_cases hadded : ((if highest < route.sequenceNumber then
      (s.routing.removeOlderLearnedRoutes route.origin route.network route.prefixLength
        route.sequenceNumber).1 else s.routing).addRoute route).2 = true
  · rw [if_pos hadded]
  · rw [if_neg hadded]

theorem usable_cases (ctx : MergeContext) (p : AdvertisedPeer) (record : AdvertisedPrefix) :
    (record.malformed = true ∨ p.pathOk ctx = false) ∨ (record.malformed = false ∧ p.pathOk ctx = true) := by
  cases record.malformed <;> cases p.pathOk ctx <;> simp

theorem not_unusable (hrecord : record.malformed = false) (hpath : p.pathOk ctx = true) :
    ¬(record.malformed = true ∨ p.pathOk ctx = false) := by
  simp [hrecord, hpath]

theorem mergeRecord_unusable (h : record.malformed = true ∨ p.pathOk ctx = false) (s : RecordMerge) :
    ∃ flag, mergeRecord ctx p s record = { s with malformedRouting := flag } := by
  unfold mergeRecord
  by_cases hrecord : record.malformed = true
  · exact ⟨true, by rw [if_pos hrecord]⟩
  · exact ⟨s.malformedRouting, by rw [if_neg hrecord, if_pos (by simpa using h.resolve_left hrecord)]⟩

/-- What happens to a usable record: it is stale, it contradicts or renews the candidate known under its
sequence number, or its route is installed. -/
theorem mergeRecord_outcome (hrecord : record.malformed = false) (hpath : p.pathOk ctx = true) (s : RecordMerge) :
    let highest := highestSequence s.routing.routes p.nodeId record.canonical record.prefixLength.toUInt32
    let known := s.routing.routes.find? fun r => r.key = (p.route ctx record).candidate.key
    (record.sequenceNumber < highest ∧
      mergeRecord ctx p s record = { s with stats.staleRejected := s.stats.staleRejected + 1 }) ∨
    highest ≤ record.sequenceNumber ∧
      ((∃ existing, known = some existing ∧ record.sequenceNumber = existing.sequenceNumber ∧
          (p.relayPath ctx.sender ≠ existing.path ∨ record.metric + 1 ≠ existing.metric) ∧
          mergeRecord ctx p s record = { s with malformedRouting := true }) ∨
        (∃ existing, known = some existing ∧ record.sequenceNumber = existing.sequenceNumber ∧
          p.relayPath ctx.sender = existing.path ∧ record.metric + 1 = existing.metric ∧
          mergeRecord ctx p s record = { s with routing := (s.routing.addRoute (p.route ctx record)).1 }) ∨
        ((∀ existing, known = some existing → record.sequenceNumber ≠ existing.sequenceNumber) ∧
          mergeRecord ctx p s record = installLearned s (p.route ctx record) highest)) := by
  intro highest known
  unfold mergeRecord
  rw [if_neg (by simp [hrecord]), if_neg (by simp [hpath])]
  simp only
  by_cases hstale : (p.route ctx record).sequenceNumber < highest
  · exact Or.inl ⟨hstale, if_pos hstale⟩
  rw [if_neg hstale]
  refine Or.inr ⟨not_lt.mp hstale, ?_⟩
  cases hfind : known with
  | none =>
    right; right
    rw [show s.routing.routes.find? (fun r => r.key = (p.route ctx record).candidate.key) = none from hfind]
    exact ⟨by simp, rfl⟩
  | some existing =>
    rw [show s.routing.routes.find? (fun r => r.key = (p.route ctx record).candidate.key) = some existing from hfind]
    simp only
    by_cases hsequence : (p.route ctx record).sequenceNumber = existing.sequenceNumber
    swap
    · right; right
      rw [if_neg hsequence]
      exact ⟨fun r hr => Option.some.inj hr ▸ hsequence, rfl⟩
    rw [if_pos hsequence]
    by_cases hdiff : (p.route ctx record).path ≠ existing.path ∨ (p.route ctx record).metric ≠ existing.metric
    · left
      rw [if_pos (by simpa using hdiff)]
      exact ⟨existing, rfl, hsequence, hdiff, rfl⟩
    · right; left
      rw [if_neg (by simpa using hdiff)]
      rw [not_or, not_not, not_not] at hdiff
      exact ⟨existing, rfl, hsequence, hdiff.1, hdiff.2, rfl⟩

theorem mergeRecord_step (ctx : MergeContext) (p : AdvertisedPeer) (s : RecordMerge) (record : AdvertisedPrefix) :
    RecordStep ctx p record s.routing (mergeRecord ctx p s record).routing := by
  rcases usable_cases ctx p record with hunusable | ⟨hrecord, hpath⟩
  · obtain ⟨flag, heq⟩ := mergeRecord_unusable hunusable s
    rw [heq]
    exact .unusable hunusable
  rcases mergeRecord_outcome hrecord hpath s with
    ⟨hstale, heq⟩ | ⟨hhighest, ⟨existing, hfind, hsequence, hdiff, heq⟩ |
      ⟨existing, hfind, hsequence, hsame, -, heq⟩ | ⟨hnew, heq⟩⟩
  · rw [heq]
    exact .stale hrecord hpath hstale
  · rw [heq]
    exact .inconsistent hrecord hpath existing hfind hsequence hdiff
  · rw [heq]
    exact .refreshed hrecord hpath hhighest existing hfind hsequence hsame
  · have hsequence : (p.route ctx record).sequenceNumber = record.sequenceNumber := rfl
    rw [heq, routing_installLearned, hsequence]
    rcases lt_or_eq_of_le hhighest with hlt | hsame
    · rw [if_pos hlt]
      exact .superseded hrecord hpath hlt
    · rw [if_neg (by rw [hsame]; exact lt_irrefl _)]
      exact .joined hrecord hpath hsame hnew

/-! ### One entry -/

/-- What happens to an entry: its identity is not usable, its peer record is refused, or the record is written
and the entry's records are handled. -/
theorem mergeEntry_outcome (hashPublicKey : X25519Key → NodeId) (ctx : MergeContext) (s : Merge) (p : AdvertisedPeer) :
    (¬Accepted hashPublicKey ctx p ∧
      ∃ malformed, mergeEntry hashPublicKey ctx s p = { s with stats.malformed := malformed }) ∨
    (Accepted hashPublicKey ctx p ∧ s.peers.accepts p.nodeId p.publicKey = false ∧
      (s.peers.upsert ctx.now p.nodeId p.publicKey none false = (s.peers, .identityConflict) ∧
          mergeEntry hashPublicKey ctx s p = { s with stats.conflicting := s.stats.conflicting + 1 } ∨
        mergeEntry hashPublicKey ctx s p = { s with stats.capacityRejected := s.stats.capacityRejected + 1 })) ∨
    (Accepted hashPublicKey ctx p ∧ s.peers.accepts p.nodeId p.publicKey = true ∧
      mergeEntry hashPublicKey ctx s p = mergeRecords ctx p { s with
        peers := (s.peers.upsert ctx.now p.nodeId p.publicKey none false).1
        stats.accepted := s.stats.accepted + 1
        stats.peersChanged := s.stats.peersChanged +
          if (s.peers.upsert ctx.now p.nodeId p.publicKey none false).2 = .updated then 0 else 1 }) := by
  unfold mergeEntry
  by_cases hskip : p.nodeId = ctx.self ∨ p.nodeId = ctx.sender
  · rw [if_pos hskip]
    refine Or.inl ⟨fun haccepted => ?_, _, rfl⟩
    exact hskip.elim haccepted.ne_self haccepted.ne_sender
  rw [if_neg hskip]
  by_cases hidentity : p.identityOk hashPublicKey = true
  swap
  · rw [if_pos (by simpa using hidentity)]
    exact Or.inl ⟨fun haccepted => absurd haccepted.identity hidentity, _, rfl⟩
  rw [if_neg (by simpa using hidentity)]
  obtain ⟨hself, hsender⟩ := not_or.mp hskip
  right
  rcases PeerManager.upsert_cases s.peers ctx.now p.nodeId p.publicKey none false with
    ⟨hrefused, heq | heq⟩ | ⟨haccepts, hconflict, hcapacity⟩
  · rw [heq]
    exact Or.inl ⟨⟨hself, hsender, hidentity⟩, hrefused, Or.inl ⟨rfl, rfl⟩⟩
  · rw [heq]
    exact Or.inl ⟨⟨hself, hsender, hidentity⟩, hrefused, Or.inr rfl⟩
  · refine Or.inr ⟨⟨hself, hsender, hidentity⟩, haccepts, ?_⟩
    cases hupsert : s.peers.upsert ctx.now p.nodeId p.publicKey none false with
    | mk peers result =>
      rw [hupsert] at hconflict hcapacity
      cases result with
      | identityConflict => exact absurd rfl hconflict
      | capacityRejected => exact absurd rfl hcapacity
      | inserted | updated | identityBound => rfl

/-- An entry changes nothing, or its peer record is written and its records are handled in order. -/
theorem mergeEntry_cases (hashPublicKey : X25519Key → NodeId) (ctx : MergeContext) (s : Merge) (p : AdvertisedPeer) :
    ((mergeEntry hashPublicKey ctx s p).peers = s.peers ∧
        (mergeEntry hashPublicKey ctx s p).routing = s.routing ∧
        (Accepted hashPublicKey ctx p → s.peers.accepts p.nodeId p.publicKey = false)) ∨
    (Accepted hashPublicKey ctx p ∧ s.peers.accepts p.nodeId p.publicKey = true ∧
        (mergeEntry hashPublicKey ctx s p).peers = (s.peers.upsert ctx.now p.nodeId p.publicKey none false).1 ∧
        ∃ t : RecordMerge, t.routing = s.routing ∧
          (mergeEntry hashPublicKey ctx s p).routing = (p.prefixes.foldl (mergeRecord ctx p) t).routing) := by
  rcases mergeEntry_outcome hashPublicKey ctx s p with
    ⟨hnot, _, heq⟩ | ⟨-, hrefused, ⟨-, heq⟩ | heq⟩ | ⟨haccepted, haccepts, heq⟩
  · rw [heq]
    exact Or.inl ⟨rfl, rfl, fun haccepted => absurd haccepted hnot⟩
  · rw [heq]
    exact Or.inl ⟨rfl, rfl, fun _ => hrefused⟩
  · rw [heq]
    exact Or.inl ⟨rfl, rfl, fun _ => hrefused⟩
  · rw [heq]
    exact Or.inr ⟨haccepted, haccepts, rfl, _, rfl, rfl⟩

/-! ### The whole merge -/

/-- The record of a peer holds this key. -/
def PeerManager.Binds (mgr : PeerManager) (id : NodeId) (publicKey : X25519Key) : Prop :=
  ∃ peer, mgr.peers.find? id = some peer ∧ peer.publicKey = publicKey

theorem PeerManager.binds_upsert {mgr : PeerManager} {now : Time} {id : NodeId} {publicKey : X25519Key}
    {endpoint : Option Endpoint} {trusted : Bool} (hkey : isEmptyKey publicKey = false)
    (haccepts : mgr.accepts id publicKey = true) :
    (mgr.upsert now id publicKey endpoint trusted).1.Binds id publicKey := by
  refine ⟨_, find?_upsert_self haccepts, ?_⟩
  unfold accepts at haccepts
  cases hfind : mgr.peers.find? id with
  | none => simp [recordAfter, hfind]
  | some peer =>
    have hconflict : conflicts peer publicKey = false := by simpa [hfind] using haccepts
    cases hempty : isEmptyKey peer.publicKey with
    | true => simp [recordAfter, hfind, hempty, hkey]
    | false => simpa [recordAfter, hfind, hempty, conflicts, hkey] using hconflict

theorem Accepted.key (h : Accepted hashPublicKey ctx p) :
    isEmptyKey p.publicKey = false ∧ hashPublicKey p.publicKey = p.nodeId := by
  have hidentity := h.identity
  simp only [AdvertisedPeer.identityOk, Bool.and_eq_true, decide_eq_true_eq] at hidentity
  exact ⟨beq_eq_false_iff_ne.mpr hidentity.1.2, hidentity.2⟩

/-- `Inv` still holds when an accepted peer is recorded, and when one of its records is handled. -/
structure KeptByMerge (hashPublicKey : X25519Key → NodeId) (ctx : MergeContext) (advertised : List AdvertisedPeer)
    (Inv : PeerManager → RoutingEngine → Prop) : Prop where
  peer : ∀ pm re, ∀ p ∈ advertised, Accepted hashPublicKey ctx p → pm.accepts p.nodeId p.publicKey = true →
    Inv pm re → Inv (pm.upsert ctx.now p.nodeId p.publicKey none false).1 re
  record : ∀ pm re re', ∀ p ∈ advertised, Accepted hashPublicKey ctx p → pm.Binds p.nodeId p.publicKey →
    ∀ record ∈ p.prefixes, RecordStep ctx p record re re' → Inv pm re → Inv pm re'

namespace KeptByMerge

variable {advertised : List AdvertisedPeer} {Inv Goal : PeerManager → RoutingEngine → Prop}

theorem entry (h : KeptByMerge hashPublicKey ctx advertised Inv) (s : Merge) (hp : p ∈ advertised)
    (hinv : Inv s.peers s.routing) :
    Inv (mergeEntry hashPublicKey ctx s p).peers (mergeEntry hashPublicKey ctx s p).routing := by
  rcases mergeEntry_cases hashPublicKey ctx s p with
    ⟨hpeers, hrouting, -⟩ | ⟨haccepted, haccepts, hpeers, t, ht, hrouting⟩
  · rw [hpeers, hrouting]
    exact hinv
  · rw [hpeers, hrouting]
    have hbinds : (s.peers.upsert ctx.now p.nodeId p.publicKey none false).1.Binds p.nodeId p.publicKey :=
      PeerManager.binds_upsert haccepted.key.1 haccepts
    refine Run.invariant_of_mem
      (fun t : RecordMerge => Inv (s.peers.upsert ctx.now p.nodeId p.publicKey none false).1 t.routing) ?_ ?_
    · intro t record hmem hinv
      exact h.record _ _ _ p hp haccepted hbinds record hmem (mergeRecord_step ctx p t record) hinv
    · rw [ht]
      exact h.peer _ _ p hp haccepted haccepts hinv

theorem merge (h : KeptByMerge hashPublicKey ctx advertised Inv) {pm : PeerManager} {re : RoutingEngine}
    (hinit : Inv pm re) :
    Inv (mergePeerTable hashPublicKey ctx pm re advertised).peers
      (mergePeerTable hashPublicKey ctx pm re advertised).routing :=
  Run.invariant_of_mem (fun s : Merge => Inv s.peers s.routing) (fun s _ hp hinv => h.entry s hp hinv) hinit

/-- What the handling of one record of an entry that is taken brings about, and nothing undoes, holds after
the merge. -/
theorem reaches (hInv : KeptByMerge hashPublicKey ctx advertised Inv)
    (hGoal : KeptByMerge hashPublicKey ctx advertised Goal) (hp : p ∈ advertised)
    (haccepted : Accepted hashPublicKey ctx p)
    (haccepts : ∀ pm re, Inv pm re → pm.accepts p.nodeId p.publicKey = true) (hrecord : record ∈ p.prefixes)
    (hreach : ∀ pm re re', RecordStep ctx p record re re' → Inv pm re → Goal pm re') {pm : PeerManager}
    {re : RoutingEngine} (hinit : Inv pm re) :
    Goal (mergePeerTable hashPublicKey ctx pm re advertised).peers
      (mergePeerTable hashPublicKey ctx pm re advertised).routing := by
  refine Run.reaches (fun s : Merge => Inv s.peers s.routing) (fun s : Merge => Goal s.peers s.routing) hp
    (fun s _ hp hinv => hInv.entry s hp hinv) (fun s hinv => ?_) (fun s _ hp hgoal => hGoal.entry s hp hgoal) hinit
  rcases mergeEntry_cases hashPublicKey ctx s p with ⟨-, -, hrefused⟩ | ⟨-, htaken, hpeers, t, ht, hrouting⟩
  · rw [haccepts _ _ hinv] at hrefused
    cases hrefused haccepted
  · rw [hpeers, hrouting]
    have hbinds : (s.peers.upsert ctx.now p.nodeId p.publicKey none false).1.Binds p.nodeId p.publicKey :=
      PeerManager.binds_upsert haccepted.key.1 htaken
    refine Run.reaches
      (fun t : RecordMerge => Inv (s.peers.upsert ctx.now p.nodeId p.publicKey none false).1 t.routing)
      (fun t : RecordMerge => Goal (s.peers.upsert ctx.now p.nodeId p.publicKey none false).1 t.routing) hrecord
      ?_ ?_ ?_ ?_
    · exact fun t record' hmem =>
        hInv.record _ _ _ p hp haccepted hbinds record' hmem (mergeRecord_step ctx p t record')
    · exact fun t => hreach _ _ _ (mergeRecord_step ctx p t record)
    · exact fun t record' hmem =>
        hGoal.record _ _ _ p hp haccepted hbinds record' hmem (mergeRecord_step ctx p t record')
    · rw [ht]
      exact hInv.peer _ _ p hp haccepted htaken hinv

end KeptByMerge

/-- What holds before a merge, when an accepted peer is recorded and when one of its records is handled,
holds after it. -/
theorem mergePeerTable_induction {pm : PeerManager} {re : RoutingEngine} {advertised : List AdvertisedPeer}
    (Inv : PeerManager → RoutingEngine → Prop) (hpeer : ∀ pm re, ∀ p ∈ advertised, Accepted hashPublicKey ctx p →
      pm.accepts p.nodeId p.publicKey = true → Inv pm re → Inv (pm.upsert ctx.now p.nodeId p.publicKey none false).1 re)
    (hrecord : ∀ pm re re', ∀ p ∈ advertised, Accepted hashPublicKey ctx p → ∀ record ∈ p.prefixes,
      RecordStep ctx p record re re' → Inv pm re → Inv pm re') (hinit : Inv pm re) :
    Inv (mergePeerTable hashPublicKey ctx pm re advertised).peers
      (mergePeerTable hashPublicKey ctx pm re advertised).routing :=
  KeptByMerge.merge ⟨hpeer, fun pm re re' p hp haccepted _ => hrecord pm re re' p hp haccepted⟩ hinit

end Aegis
