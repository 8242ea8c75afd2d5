import Aegis.Tunnel.Overlay

/-!
# Supersession by sequence numbers

Routes to one origin over one prefix, learned from several neighbours, carry the origin's sequence number.
`add_route` does not look at it; that all such routes agree on it follows from how a merge uses the engine:
a lower number is refused, an equal one joins, and a higher one first clears the others. Clearing makes
room, so the newer route is then always taken and the prefix is never left without a route to its origin.
-/

namespace Aegis

/-- Two learned routes of one origin over one prefix. -/
def Route.SameOffer (r r' : Route) : Prop :=
  r.type = .relay ∧ r'.type = .relay ∧ r.origin = r'.origin ∧ r.network = r'.network ∧
    r.prefixLength = r'.prefixLength

instance (r r' : Route) : Decidable (r.SameOffer r') := inferInstanceAs (Decidable (_ ∧ _))

theorem Route.SameOffer.symm {r r' : Route} (h : r.SameOffer r') : r'.SameOffer r :=
  ⟨h.2.1, h.1, h.2.2.1.symm, h.2.2.2.1.symm, h.2.2.2.2.symm⟩

theorem Route.SameOffer.trans {a b c : Route} (hab : a.SameOffer b) (hbc : b.SameOffer c) : a.SameOffer c :=
  ⟨hab.1, hbc.2.1, hab.2.2.1.trans hbc.2.2.1, hab.2.2.2.1.trans hbc.2.2.2.1, hab.2.2.2.2.trans hbc.2.2.2.2⟩

/-- The origin of every learned route is its destination. A merge installs no others. -/
def OriginIsDestination (re : RoutingEngine) : Prop :=
  ∀ r ∈ re.routes, r.type = .relay → r.origin = r.destination

/-- Learned routes of one offer agree on its sequence number, and their origin is their destination. -/
structure Superseding (re : RoutingEngine) : Prop where
  agree : ∀ r ∈ re.routes, ∀ r' ∈ re.routes, r.SameOffer r' → r.sequenceNumber = r'.sequenceNumber
  origin : ∀ r ∈ re.routes, r.type = .relay → r.origin = r.destination

theorem Superseding.of_learnedWithin {re re' : RoutingEngine} (h : Superseding re)
    (hwithin : re.LearnedWithin re') : Superseding re' := by
  constructor
  · intro r hr r' hr' hoffer
    obtain ⟨a, ha, heq⟩ := hwithin r hr hoffer.1
    obtain ⟨b, hb, heq'⟩ := hwithin r' hr' hoffer.2.1
    rw [heq, heq'] at hoffer ⊢
    exact h.agree a ha b hb hoffer
  · intro r hr htype
    obtain ⟨a, ha, heq⟩ := hwithin r hr htype
    rw [heq] at htype ⊢
    exact h.origin a ha htype

theorem Superseding.addRoute {re : RoutingEngine} {route : Route} (h : Superseding re)
    (hagree : ∀ r ∈ re.routes, r.SameOffer route.candidate → r.sequenceNumber = route.sequenceNumber)
    (horigin : route.candidate.origin = route.candidate.destination) : Superseding (re.addRoute route).1 := by
  constructor
  · intro r hr r' hr' hoffer
    rcases RoutingEngine.mem_addRoute hr with hr | heq <;> rcases RoutingEngine.mem_addRoute hr' with hr' | heq'
    · exact h.agree r hr r' hr' hoffer
    · rw [heq'] at hoffer ⊢
      exact hagree r hr hoffer
    · rw [heq] at hoffer ⊢
      exact (hagree r' hr' hoffer.symm).symm
    · rw [heq, heq']
  · intro r hr htype
    rcases RoutingEngine.mem_addRoute hr with hr | heq
    · exact h.origin r hr htype
    · rw [heq]
      exact horigin

section RecordStep

variable {hashPublicKey : X25519Key → NodeId} {ctx : MergeContext} {p : AdvertisedPeer}
  {record : AdvertisedPrefix} {re re' : RoutingEngine}

theorem origin_candidate_route : (p.route ctx record).candidate.origin = p.nodeId := by
  rw [candidate_route]
  rfl

variable {r : Route}

theorem sameOffer_route_iff : r.SameOffer (p.route ctx record).candidate ↔
    RoutingEngine.isLearned p.nodeId record.canonical record.prefixLength.toUInt32 r = true := by
  rw [candidate_route]
  simp [Route.SameOffer, RoutingEngine.isLearned, Route.isFor, AdvertisedPeer.route, and_assoc]

theorem le_highestSequence_of_sameOffer (hr : r ∈ re.routes) (hoffer : r.SameOffer (p.route ctx record).candidate) :
    r.sequenceNumber ≤ highestSequence re.routes p.nodeId record.canonical record.prefixLength.toUInt32 :=
  le_highestSequence hr (sameOffer_route_iff.mp hoffer)

theorem sameOffer_of_key (h : OriginIsDestination re) (hr : r ∈ re.routes)
    (hkey : r.key = (p.route ctx record).candidate.key) : r.SameOffer (p.route ctx record).candidate := by
  simp only [Route.key, Prod.mk.injEq] at hkey
  obtain ⟨hnetwork, hlength, htype, -, hdestination⟩ := hkey
  refine ⟨htype, rfl, ?_, hnetwork, hlength⟩
  rw [h r hr htype, hdestination, origin_candidate_route]
  rfl

theorem OriginIsDestination.recordStep (h : OriginIsDestination re) (hstep : RecordStep ctx p record re re') :
    OriginIsDestination re' := by
  intro r hr htype
  rcases mem_of_recordStep hstep hr with hr | ⟨-, -, heq⟩
  · exact h r hr htype
  · rw [heq]
    exact origin_candidate_route

/-- Before the route is added, every route of its offer in the table has its sequence number: in a table
where numbers agree, under the highest number. -/
theorem Superseding.agree_of_highest (h : Superseding re) (hrecord : record.malformed = false)
    (hhighest : highestSequence re.routes p.nodeId record.canonical record.prefixLength.toUInt32 =
      record.sequenceNumber) (hr : r ∈ re.routes)
    (hoffer : r.SameOffer (p.route ctx record).candidate) : r.sequenceNumber = record.sequenceNumber := by
  rcases highestSequence_eq re.routes p.nodeId record.canonical record.prefixLength.toUInt32 with
    hzero | ⟨r₀, hr₀, hlearned, heq⟩
  · rw [hhighest] at hzero
    exact absurd hzero (AdvertisedPrefix.of_malformed_eq_false hrecord).2.1
  · have hoffer₀ : r₀.SameOffer (p.route ctx record).candidate := sameOffer_route_iff.mpr hlearned
    rw [h.agree r hr r₀ hr₀ (hoffer.trans hoffer₀.symm), heq, hhighest]

theorem Superseding.agree_of_refresh (h : Superseding re) {existing : Route}
    (hfind : re.routes.find? (fun r => r.key = (p.route ctx record).candidate.key) = some existing)
    (hsequence : record.sequenceNumber = existing.sequenceNumber) (hr : r ∈ re.routes)
    (hoffer : r.SameOffer (p.route ctx record).candidate) : r.sequenceNumber = record.sequenceNumber := by
  have hmem := List.mem_of_find?_eq_some hfind
  rw [hsequence]
  exact h.agree r hr existing hmem (hoffer.trans (sameOffer_of_key h.origin hmem (Route.key_of_find? hfind)).symm)

theorem not_sameOffer_of_cleared (hrecord : record.malformed = false)
    (hhighest : highestSequence re.routes p.nodeId record.canonical record.prefixLength.toUInt32 <
      record.sequenceNumber) (hr : r ∈ (re.removeOlderLearnedRoutes p.nodeId record.network record.prefixLength.toUInt32
      record.sequenceNumber).1.routes) : ¬r.SameOffer (p.route ctx record).candidate := by
  intro hoffer
  have hvalid := AdvertisedPrefix.validPrefixLength_of_wellFormed hrecord
  obtain ⟨hr, hkept⟩ := (RoutingEngine.mem_removeOlderLearnedRoutes hvalid).mp hr
  rw [canonicalPrefix_toUInt32] at hkept
  have hlt := (le_highestSequence_of_sameOffer hr hoffer).trans_lt hhighest
  exact absurd (hkept (sameOffer_route_iff.mp hoffer)) (not_le.mpr hlt)

theorem learnedWithin_removeOlder (re : RoutingEngine) (origin : NodeId) (network : IPAddress)
    (prefixLength : UInt32) (minimum : UInt64) :
    re.LearnedWithin (re.removeOlderLearnedRoutes origin network prefixLength minimum).1 :=
  fun r hr _ => ⟨r, RoutingEngine.mem_of_mem_removeOlderLearnedRoutes hr, rfl⟩

theorem Superseding.recordStep (h : Superseding re) (hstep : RecordStep ctx p record re re') : Superseding re' := by
  cases hstep with
  | unusable | stale | inconsistent => exact h
  | refreshed _ _ _ existing hfind hsequence =>
    exact h.addRoute (fun r hr => h.agree_of_refresh hfind hsequence hr) origin_candidate_route
  | joined hrecord _ hhighest =>
    exact h.addRoute (fun r hr => h.agree_of_highest hrecord hhighest hr) origin_candidate_route
  | superseded hrecord _ hhighest =>
    refine (h.of_learnedWithin (learnedWithin_removeOlder _ _ _ _ _)).addRoute ?_ origin_candidate_route
    exact fun r hr hoffer => absurd hoffer (not_sameOffer_of_cleared hrecord hhighest hr)

theorem added_after_clearing (hne : p.nodeId ≠ ctx.sender) (hrecord : record.malformed = false)
    (hpath : p.pathOk ctx = true) (hr : r ∈ re.routes) (hoffer : r.SameOffer (p.route ctx record).candidate)
    (hlt : r.sequenceNumber < record.sequenceNumber) :
    ((re.removeOlderLearnedRoutes p.nodeId record.network record.prefixLength.toUInt32
      record.sequenceNumber).1.addRoute (p.route ctx record)).2 = true := by
  obtain ⟨hshape, hlimits⟩ := route_addable hne hrecord hpath
  have hvalid := AdvertisedPrefix.validPrefixLength_of_wellFormed hrecord
  have hroom := RoutingEngine.hasRoom_eraseIf hr (p := fun route =>
    RoutingEngine.isLearned p.nodeId (canonicalPrefix record.network record.prefixLength.toUInt32)
      record.prefixLength.toUInt32 route && decide (route.sequenceNumber < record.sequenceNumber)) (by
        rw [canonicalPrefix_toUInt32, Bool.and_eq_true]
        exact ⟨sameOffer_route_iff.mp hoffer, decide_eq_true hlt⟩)
  rw [hoffer.2.2.2.1, hoffer.2.2.2.2] at hroom
  simp only [RoutingEngine.removeOlderLearnedRoutes, hvalid, Bool.not_true, Bool.false_eq_true, if_false]
  exact (RoutingEngine.addRoute_eq_true_iff _ _).mpr ⟨hshape, hlimits, Or.inr hroom⟩

/-- What happens to a route when the record's route is added: an entry that the addition overwrites is of the
record's offer, under its number or an older one. -/
theorem kept_or_superseded_addRoute (h : OriginIsDestination re) (hne : p.nodeId ≠ ctx.sender)
    (hrecord : record.malformed = false) (hpath : p.pathOk ctx = true) (hr : r ∈ re.routes)
    (hle : r.key = (p.route ctx record).candidate.key → r.sequenceNumber ≤ record.sequenceNumber) :
    (∃ r' ∈ (re.addRoute (p.route ctx record)).1.routes, r'.key = r.key ∧
      r'.sequenceNumber = r.sequenceNumber ∧ r'.origin = r.origin) ∨
    (∃ r' ∈ (re.addRoute (p.route ctx record)).1.routes,
      r' = { (p.route ctx record).candidate with probe := r'.probe } ∧ r.SameOffer r' ∧
        r.sequenceNumber < r'.sequenceNumber) := by
  by_cases hkey : r.key = (p.route ctx record).candidate.key
  swap
  · exact Or.inl ⟨r, RoutingEngine.mem_addRoute_of_ne hr hkey, rfl, rfl, rfl⟩
  obtain ⟨hshape, hlimits⟩ := route_addable hne hrecord hpath
  have htrue : (re.addRoute (p.route ctx record)).2 = true :=
    (re.addRoute_eq_true_iff _).mpr ⟨hshape, hlimits, Or.inl ⟨r, hr, hkey⟩⟩
  obtain ⟨r', hr', heq⟩ := RoutingEngine.mem_of_addRoute htrue
  have hoffer := sameOffer_of_key h hr hkey
  rcases (hle hkey).eq_or_lt with hsequence | hlt
  · refine Or.inl ⟨r', hr', ?_, ?_, ?_⟩
    · rw [hkey, heq]
      rfl
    · rw [hsequence, heq]
      rfl
    · rw [hoffer.2.2.1, heq]
  · refine Or.inr ⟨r', hr', heq, ?_, ?_⟩
    · rw [heq]
      exact hoffer
    · rw [heq]
      exact hlt

/-- What happens to a route when one record is handled: it keeps its place and number, or a newer route of
its offer was installed for the record. -/
theorem kept_or_superseded (h : OriginIsDestination re) (hne : p.nodeId ≠ ctx.sender)
    (hstep : RecordStep ctx p record re re') (hr : r ∈ re.routes) :
    (∃ r' ∈ re'.routes, r'.key = r.key ∧ r'.sequenceNumber = r.sequenceNumber ∧ r'.origin = r.origin) ∨
    (∃ r' ∈ re'.routes, r' = { (p.route ctx record).candidate with probe := r'.probe } ∧ r.SameOffer r' ∧
      r.sequenceNumber < r'.sequenceNumber) := by
  cases hstep with
  | unusable | stale | inconsistent => exact Or.inl ⟨r, hr, rfl, rfl, rfl⟩
  | refreshed hrecord hpath _ existing hfind hsequence =>
    refine kept_or_superseded_addRoute h hne hrecord hpath hr fun hkey => ?_
    rw [hsequence, RoutingEngine.eq_of_find?_key hr hkey hfind]
  | joined hrecord hpath hhighest =>
    refine kept_or_superseded_addRoute h hne hrecord hpath hr fun hkey => ?_
    rw [← hhighest]
    exact le_highestSequence_of_sameOffer hr (sameOffer_of_key h hr hkey)
  | superseded hrecord hpath hhighest =>
    by_cases hoffer : r.SameOffer (p.route ctx record).candidate
    swap
    · -- a route of another offer is not cleared
      have hvalid := AdvertisedPrefix.validPrefixLength_of_wellFormed hrecord
      refine kept_or_superseded_addRoute
        (fun a ha => h a (RoutingEngine.mem_of_mem_removeOlderLearnedRoutes ha)) hne hrecord hpath
        ((RoutingEngine.mem_removeOlderLearnedRoutes hvalid).mpr ⟨hr, fun hlearned => ?_⟩)
        (fun hkey => absurd (sameOffer_of_key h hr hkey) hoffer)
      rw [canonicalPrefix_toUInt32] at hlearned
      exact absurd (sameOffer_route_iff.mpr hlearned) hoffer
    · right
      have hlt : r.sequenceNumber < record.sequenceNumber :=
        (le_highestSequence_of_sameOffer hr hoffer).trans_lt hhighest
      have hadded := added_after_clearing hne hrecord hpath hr hoffer hlt
      obtain ⟨r', hr', heq⟩ := RoutingEngine.mem_of_addRoute hadded
      refine ⟨r', hr', heq, ?_, ?_⟩
      · rw [heq]
        exact hoffer
      · rw [heq]
        exact hlt

end RecordStep

/-- Every offer with a learned route still has one, under a number at least as high. -/
def Advances (before after : RoutingEngine) : Prop :=
  ∀ r ∈ before.routes, r.type = .relay →
    ∃ r' ∈ after.routes, r.SameOffer r' ∧ r.sequenceNumber ≤ r'.sequenceNumber

theorem Advances.refl (re : RoutingEngine) : Advances re re := fun r hr htype =>
  ⟨r, hr, ⟨htype, htype, rfl, rfl, rfl⟩, le_refl _⟩

theorem Advances.trans {a b c : RoutingEngine} (hab : Advances a b) (hbc : Advances b c) : Advances a c := by
  intro r hr htype
  obtain ⟨r', hr', hoffer, hle⟩ := hab r hr htype
  obtain ⟨r'', hr'', hoffer', hle'⟩ := hbc r' hr' hoffer.2.1
  exact ⟨r'', hr'', hoffer.trans hoffer', hle.trans hle'⟩

section Merge

variable {hashPublicKey : X25519Key → NodeId} {ctx : MergeContext} {p : AdvertisedPeer}
  {record : AdvertisedPrefix} {re re' : RoutingEngine}

theorem OriginIsDestination.advances (h : OriginIsDestination re) (hne : p.nodeId ≠ ctx.sender)
    (hstep : RecordStep ctx p record re re') : Advances re re' := by
  intro r hr htype
  rcases kept_or_superseded h hne hstep hr with
    ⟨r', hr', hkey, hsequence, horigin⟩ | ⟨r', hr', -, hoffer, hlt⟩
  · simp only [Route.key, Prod.mk.injEq] at hkey
    obtain ⟨hnetwork, hlength, htype', -⟩ := hkey
    exact ⟨r', hr', ⟨htype, htype'.trans htype, horigin.symm, hnetwork.symm, hlength.symm⟩, hsequence.ge⟩
  · exact ⟨r', hr', hoffer, hlt.le⟩

theorem Superseding.merge (h : Superseding re) (ctx : MergeContext) (pm : PeerManager)
    (advertised : List AdvertisedPeer) :
    Superseding (mergePeerTable hashPublicKey ctx pm re advertised).routing ∧
      Advances re (mergePeerTable hashPublicKey ctx pm re advertised).routing := by
  refine mergePeerTable_induction (fun _ re' => Superseding re' ∧ Advances re re')
    (fun _ _ _ _ _ _ hinv => hinv) ?_ ⟨h, .refl re⟩
  intro _ re₁ re₂ p _ haccepted record _ hstep hinv
  exact ⟨hinv.1.recordStep hstep, hinv.2.trans (OriginIsDestination.advances hinv.1.origin haccepted.ne_sender hstep)⟩

theorem Superseding.records (records : List AdvertisedPrefix) {t : RecordMerge} (h : Superseding t.routing) :
    Superseding (records.foldl (mergeRecord ctx p) t).routing :=
  Run.invariant (fun t : RecordMerge => Superseding t.routing)
    (fun t record h => h.recordStep (mergeRecord_step ctx p t record)) h records

end Merge

namespace Overlay

variable {hashPublicKey : X25519Key → NodeId} {timers : PeerTimers}

theorem superseding_step (s : Overlay) (a : OverlayAction) (h : Superseding s.routing) :
    Superseding (step hashPublicKey timers s a).routing := by
  cases a with
  | merge ctx advertised => exact (h.merge ctx s.peers advertised).1
  | _ => exact h.of_learnedWithin (learnedWithin_step s _ (by simp))

/-- The learned routes of a node that started without any agree on sequence numbers. -/
theorem superseding_run (pm : PeerManager) (maxRoutes : Nat) (actions : List OverlayAction) :
    Superseding (run hashPublicKey timers { peers := pm, routing := { maxRoutes := maxRoutes } } actions).routing :=
  Run.invariant (fun s : Overlay => Superseding s.routing) superseding_step ⟨by simp, by simp⟩ actions

/-- Supersession is sound. At every point of a run from an empty routing engine: learned routes of one offer
carry one sequence number; no merge lowers it or leaves the offer without a route; and a route that is gone
after one record of a merge was handled made place for a newer route of its offer, which that record
installed. -/
theorem supersession_sound (pm : PeerManager) (maxRoutes : Nat) (actions : List OverlayAction) :
    let s := run hashPublicKey timers { peers := pm, routing := { maxRoutes := maxRoutes } } actions
    (∀ r ∈ s.routing.routes, ∀ r' ∈ s.routing.routes, r.SameOffer r' →
      r.sequenceNumber = r'.sequenceNumber) ∧
    ∀ (ctx : MergeContext) (advertised : List AdvertisedPeer),
      let m := mergePeerTable hashPublicKey ctx s.peers s.routing advertised
      (∀ r ∈ s.routing.routes, ∀ r' ∈ m.routing.routes, r.SameOffer r' →
        r.sequenceNumber ≤ r'.sequenceNumber) ∧
      (∀ r ∈ s.routing.routes, r.type = .relay → ∃ r' ∈ m.routing.routes, r.SameOffer r') ∧
      ∀ front p rest records record records', advertised = front ++ p :: rest →
        p.prefixes = records ++ record :: records' → Accepted hashPublicKey ctx p →
        ∀ t : RecordMerge, t.routing = (mergePeerTable hashPublicKey ctx s.peers s.routing front).routing →
          let before := records.foldl (mergeRecord ctx p) t
          let after := mergeRecord ctx p before record
          ∀ r ∈ before.routing.routes,
            (∀ r' ∈ after.routing.routes, r'.key = r.key → r'.sequenceNumber ≠ r.sequenceNumber) →
            ∃ r' ∈ after.routing.routes, r' = { (p.route ctx record).candidate with probe := r'.probe } ∧
              r.SameOffer r' ∧ r.sequenceNumber < r'.sequenceNumber := by
  intro s
  have hs : Superseding s.routing := superseding_run pm maxRoutes actions
  refine ⟨hs.agree, fun ctx advertised => ⟨?_, ?_, ?_⟩⟩
  · intro r hr r' hr' hoffer
    obtain ⟨hm, hadvances⟩ := hs.merge ctx s.peers advertised
    obtain ⟨r'', hr'', hoffer', hle⟩ := hadvances r hr hoffer.1
    exact hle.trans_eq (hm.agree r'' hr'' r' hr' (hoffer'.symm.trans hoffer))
  · intro r hr htype
    obtain ⟨r', hr', hoffer, -⟩ := (hs.merge ctx s.peers advertised).2 r hr htype
    exact ⟨r', hr', hoffer⟩
  · intro front p rest records record records' _ _ haccepted t ht before after r hr hlost
    have hmid : Superseding t.routing := by
      rw [ht]
      exact (hs.merge ctx s.peers front).1
    rcases kept_or_superseded (hmid.records records).origin haccepted.ne_sender
        (mergeRecord_step ctx p before record) hr with ⟨r', hr', hkey, hsequence, -⟩ | hnewer
    · exact absurd hsequence (hlost r' hr' hkey)
    · exact hnewer

end Overlay

end Aegis
