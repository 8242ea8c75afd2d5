import Aegis.Tunnel.Supersession

/-!
# Merging a table again

A second merge of the table just merged, from the same sender at the same time, finds every entry bound or in
conflict and every record outdated, inconsistent or a renewal. Renewals do write: a record under the stored
number, path and metric puts its own lease into the route, and an entry may list several such records. The
last of them has the word in both merges, so the table ends where it was.

This needs that a learned route's origin is its destination. The sequence number of a record is compared with
the routes of its origin, and the route it replaces is looked up by destination; with a route where the two
differ, a record can take a number away from an origin that is not its own. No node reaches such a table by
merges (`Overlay.superseding_run`).
-/

namespace Aegis

/-! ### Renewals -/

namespace Route

/-- What an offer has to agree with to renew a route: everything but the advertiser, the lease, the time of
validation and the probes. -/
def lasting (r : Route) : Route :=
  { r with advertiser := FixedBytes.zero 32, lease := 0, validatedAt := 0, probe := {} }

/-- The route after it was offered again. -/
def renewedBy (r offer : Route) : Route :=
  if r.lasting = offer.lasting then { offer with probe := r.probe } else r

variable {r offer : Route}

theorem lasting_eq_iff : r.lasting = offer.lasting ↔ r.key = offer.key ∧ r.origin = offer.origin ∧
    r.sequenceNumber = offer.sequenceNumber ∧ r.path = offer.path ∧ r.metric = offer.metric := by
  simp only [lasting, key, mk.injEq, Prod.mk.injEq]
  tauto

theorem renewedBy_of_ne (h : r.lasting ≠ offer.lasting) : r.renewedBy offer = r := if_neg h

@[simp] theorem lasting_renewedBy : (r.renewedBy offer).lasting = r.lasting := by
  unfold renewedBy
  split_ifs with h
  · exact h.symm
  · rfl

@[simp] theorem probe_renewedBy : (r.renewedBy offer).probe = r.probe := by
  unfold renewedBy
  split_ifs <;> rfl

theorem renewedBy_eq {r' : Route} (h : r = { offer with probe := r.probe }) (hlasting : r'.lasting = r.lasting)
    (hprobe : r'.probe = r.probe) : r'.renewedBy offer = r := by
  have hmatch : r'.lasting = offer.lasting := by
    rw [hlasting, h]
    rfl
  rw [renewedBy, if_pos hmatch, hprobe, ← h]

variable {offers : List Route}

theorem lasting_foldl_renewedBy (r : Route) (offers : List Route) : (offers.foldl renewedBy r).lasting = r.lasting :=
  Run.invariant (fun r' : Route => r'.lasting = r.lasting)
    (fun _ _ h => lasting_renewedBy.trans h) rfl offers

theorem probe_foldl_renewedBy (r : Route) (offers : List Route) : (offers.foldl renewedBy r).probe = r.probe :=
  Run.invariant (fun r' : Route => r'.probe = r.probe) (fun _ _ h => probe_renewedBy.trans h) rfl offers

theorem foldl_renewedBy_filter {current : Route → Bool}
    (h : ∀ offer ∈ offers, current offer = false → r.lasting ≠ offer.lasting) :
    (offers.filter current).foldl renewedBy r = offers.foldl renewedBy r := by
  induction offers generalizing r with
  | nil => rfl
  | cons offer offers ih =>
    have hrest : ∀ c ∈ offers, current c = false → (r.renewedBy offer).lasting ≠ c.lasting := by
      intro c hc hfalse
      rw [lasting_renewedBy]
      exact h c (List.mem_cons_of_mem _ hc) hfalse
    rw [List.foldl_cons, ← ih hrest]
    cases hcurrent : current offer with
    | true => rw [List.filter_cons_of_pos hcurrent, List.foldl_cons]
    | false =>
      rw [List.filter_cons_of_neg (by simp [hcurrent]), renewedBy_of_ne (h offer List.mem_cons_self hcurrent)]

theorem foldl_renewedBy_of_ne (h : ∀ offer ∈ offers, r.lasting ≠ offer.lasting) : offers.foldl renewedBy r = r := by
  rw [← @foldl_renewedBy_filter r offers (fun _ => false) fun offer hmem _ => h offer hmem, List.filter_false]
  rfl

end Route

/-! ### What a table has absorbed -/

namespace RoutingEngine

/-- The table knows a newer number than the offer's. -/
def Outdates (re : RoutingEngine) (offer : Route) : Prop :=
  offer.sequenceNumber < highestSequence re.routes offer.origin offer.network offer.prefixLength

instance (re : RoutingEngine) (offer : Route) : Decidable (re.Outdates offer) :=
  inferInstanceAs (Decidable (_ < _))

/-- The offer cannot bring anything new: it is outdated, or stored under its number. -/
def Settled (re : RoutingEngine) (offer : Route) : Prop :=
  re.Outdates offer ∨ ∃ r ∈ re.routes, r.key = offer.key ∧ r.sequenceNumber = offer.sequenceNumber

/-- No route of the same offer has a newer number. -/
def AtTop (re : RoutingEngine) (r : Route) : Prop :=
  ∀ r' ∈ re.routes, r.SameOffer r' → r'.sequenceNumber ≤ r.sequenceNumber

variable {re re' : RoutingEngine} {r offer : Route}

theorem outdates_iff : re.Outdates offer ↔ ∃ r ∈ re.routes, offer.sequenceNumber < r.sequenceNumber ∧
    isLearned offer.origin offer.network offer.prefixLength r = true := by
  constructor
  · intro h
    rcases highestSequence_eq re.routes offer.origin offer.network offer.prefixLength with
      hzero | ⟨r, hr, hlearned, heq⟩
    · rw [Outdates, hzero] at h
      exact absurd h (not_lt.mpr UInt64.zero_le)
    · exact ⟨r, hr, heq ▸ h, hlearned⟩
  · rintro ⟨r, hr, hlt, hlearned⟩
    exact hlt.trans_le (le_highestSequence hr hlearned)

theorem outdates_iff_not_atTop (htype : offer.type = .relay) (h : r.lasting = offer.lasting) :
    re.Outdates offer ↔ ¬re.AtTop r := by
  obtain ⟨hkey, horigin, hsequence, -, -⟩ := Route.lasting_eq_iff.mp h
  simp only [Route.key, Prod.mk.injEq] at hkey
  obtain ⟨hnetwork, hlength, hkind, -, -⟩ := hkey
  rw [outdates_iff]
  simp only [AtTop, Route.SameOffer, isLearned, Route.isFor, hnetwork, hlength, hkind, horigin, hsequence, htype]
  simp only [Bool.and_eq_true, decide_eq_true_eq, not_forall, not_le]
  constructor
  · rintro ⟨r', hr', hlt, ⟨htype', horigin'⟩, hnetwork', hlength'⟩
    exact ⟨r', hr', ⟨trivial, htype', horigin'.symm, hnetwork'.symm, hlength'.symm⟩, hlt⟩
  · rintro ⟨r', hr', ⟨-, htype', horigin', hnetwork', hlength'⟩, hlt⟩
    exact ⟨r', hr', hlt, ⟨htype', horigin'.symm⟩, hnetwork'.symm, hlength'.symm⟩

theorem Outdates.of_advances (h : re.Outdates offer) (hadvances : Advances re re') : re'.Outdates offer := by
  obtain ⟨r, hr, hlt, hlearned⟩ := outdates_iff.mp h
  simp only [isLearned, Route.isFor, Bool.and_eq_true, decide_eq_true_eq] at hlearned
  obtain ⟨⟨htype, horigin⟩, hnetwork, hlength⟩ := hlearned
  obtain ⟨r', hr', ⟨-, htype', horigin', hnetwork', hlength'⟩, hle⟩ := hadvances r hr htype
  refine outdates_iff.mpr ⟨r', hr', hlt.trans_le hle, ?_⟩
  simp [isLearned, Route.isFor, htype', ← horigin', ← hnetwork', ← hlength', horigin, hnetwork, hlength]

theorem AtTop.of_advances (h : re'.AtTop r) (hadvances : Advances re re') : re.AtTop r := by
  intro a ha hoffer
  obtain ⟨b, hb, hoffer', hle⟩ := hadvances a ha hoffer.2.1
  exact hle.trans (h b hb (hoffer.trans hoffer'))

end RoutingEngine

/-- The table has been offered these routes, in this order: a route that no newer one outdates is what they
make of it. -/
structure Absorbed (re : RoutingEngine) (offers : List Route) : Prop where
  origin : OriginIsDestination re
  relay : ∀ offer ∈ offers, offer.type = .relay ∧ offer.origin = offer.destination
  settled : ∀ offer ∈ offers, re.Settled offer
  fixed : ∀ r ∈ re.routes, re.AtTop r → offers.foldl Route.renewedBy r = r

section RecordStep

variable {ctx : MergeContext} {p : AdvertisedPeer} {record : AdvertisedPrefix} {re re' : RoutingEngine}
  {offer r : Route} {offers : List Route}

theorem RoutingEngine.Settled.recordStep (h : re.Settled offer) (horigin : OriginIsDestination re)
    (hne : p.nodeId ≠ ctx.sender) (hstep : RecordStep ctx p record re re')
    (hoffer : offer.type = .relay ∧ offer.origin = offer.destination) : re'.Settled offer := by
  rcases h with h | ⟨r, hr, hkey, hsequence⟩
  · exact Or.inl (h.of_advances (horigin.advances hne hstep))
  rcases kept_or_superseded horigin hne hstep hr with
    ⟨r', hr', hkey', hsequence', -⟩ | ⟨r', hr', -, ⟨htype, htype', hsame, hnetwork, hlength⟩, hlt⟩
  · exact Or.inr ⟨r', hr', hkey'.trans hkey, hsequence'.trans hsequence⟩
  · -- the stored route made place for a newer one of the same origin
    simp only [Route.key, Prod.mk.injEq] at hkey
    obtain ⟨hnetwork', hlength', -, -, hdestination⟩ := hkey
    have hown : r.origin = offer.origin := by rw [horigin r hr htype, hdestination, hoffer.2]
    refine Or.inl (RoutingEngine.outdates_iff.mpr ⟨r', hr', hsequence ▸ hlt, ?_⟩)
    simp [RoutingEngine.isLearned, Route.isFor, htype', ← hsame, ← hnetwork, ← hlength, hown, hnetwork', hlength']

theorem outdates_candidate_iff : re.Outdates (p.route ctx record).candidate ↔ record.sequenceNumber <
    highestSequence re.routes p.nodeId record.canonical record.prefixLength.toUInt32 := by
  rw [RoutingEngine.Outdates, candidate_route]
  rfl

theorem eq_of_key_addRoute (hne : p.nodeId ≠ ctx.sender) (hrecord : record.malformed = false)
    (hpath : p.pathOk ctx = true) (hr : r ∈ (re.addRoute (p.route ctx record)).1.routes)
    (hkey : r.key = (p.route ctx record).candidate.key) :
    r = { (p.route ctx record).candidate with probe := r.probe } := by
  rcases RoutingEngine.mem_addRoute hr with hold | heq
  · obtain ⟨hshape, hlimits⟩ := route_addable hne hrecord hpath
    obtain ⟨r', hr', heq⟩ := RoutingEngine.mem_of_addRoute
      ((re.addRoute_eq_true_iff _).mpr ⟨hshape, hlimits, Or.inl ⟨r, hold, hkey⟩⟩)
    have hkey' : r'.key = (p.route ctx record).candidate.key := by
      rw [heq]
      rfl
    rw [RoutingEngine.eq_of_key_eq hr hr' (hkey.trans hkey'.symm)]
    exact heq
  · exact heq

theorem lasting_ne_of_recordStep (hne : p.nodeId ≠ ctx.sender) (hstep : RecordStep ctx p record re re')
    (hrecord : record.malformed = false) (hpath : p.pathOk ctx = true) (hr : r ∈ re.routes) (hr' : r ∈ re'.routes)
    (htop : re.AtTop r) (hold : r ≠ { (p.route ctx record).candidate with probe := r.probe }) :
    r.lasting ≠ (p.route ctx record).candidate.lasting := by
  intro hlasting
  obtain ⟨hkey, -, -, hsamePath, hsameMetric⟩ := Route.lasting_eq_iff.mp hlasting
  cases hstep with
  | unusable hbad => exact not_unusable hrecord hpath hbad
  | stale _ _ hstale =>
    exact (RoutingEngine.outdates_iff_not_atTop rfl hlasting).mp (outdates_candidate_iff.mpr hstale) htop
  | inconsistent _ _ existing hfind _ hdiffers =>
    obtain rfl := RoutingEngine.eq_of_find?_key hr hkey hfind
    exact hdiffers.elim (fun h => h hsamePath.symm) fun h => h hsameMetric.symm
  | refreshed | joined | superseded => exact hold (eq_of_key_addRoute hne hrecord hpath hr' hkey)

theorem Absorbed.recordStep (h : Absorbed re offers) (hne : p.nodeId ≠ ctx.sender)
    (hstep : RecordStep ctx p record re re') (hrecord : record.malformed = false) (hpath : p.pathOk ctx = true)
    (hsettled : re'.Settled (p.route ctx record).candidate) :
    Absorbed re' (offers ++ [(p.route ctx record).candidate]) where
  origin := h.origin.recordStep hstep
  relay := by
    intro offer hoffer
    rcases List.mem_append.mp hoffer with hoffer | hoffer
    · exact h.relay offer hoffer
    · obtain rfl := List.mem_singleton.mp hoffer
      exact ⟨rfl, origin_candidate_route⟩
  settled := by
    intro offer hoffer
    rcases List.mem_append.mp hoffer with hoffer | hoffer
    · exact (h.settled offer hoffer).recordStep h.origin hne hstep (h.relay offer hoffer)
    · obtain rfl := List.mem_singleton.mp hoffer
      exact hsettled
  fixed := by
    intro r hr htop
    rw [List.foldl_append, List.foldl_cons, List.foldl_nil]
    by_cases hnew : r = { (p.route ctx record).candidate with probe := r.probe }
    · -- whatever the earlier offers made of it, this one overwrites
      exact Route.renewedBy_eq hnew (Route.lasting_foldl_renewedBy r offers) (Route.probe_foldl_renewedBy r offers)
    · have hold : r ∈ re.routes := (mem_of_recordStep hstep hr).resolve_right fun hlearned => hnew hlearned.2.2
      have htop' := htop.of_advances (h.origin.advances hne hstep)
      rw [h.fixed r hold htop',
        Route.renewedBy_of_ne (lasting_ne_of_recordStep hne hstep hrecord hpath hold hr htop' hnew)]

end RecordStep

/-! ### The first merge -/

section First

variable {hashPublicKey : X25519Key → NodeId} {ctx : MergeContext} {p : AdvertisedPeer}
  {record : AdvertisedPrefix} {offers : List Route}

/-- The routes of the usable records. -/
def AdvertisedPeer.offered (p : AdvertisedPeer) (ctx : MergeContext) (records : List AdvertisedPrefix) :
    List Route :=
  (records.filter fun record => !record.malformed && p.pathOk ctx).map fun record => (p.route ctx record).candidate

theorem AdvertisedPeer.offered_cons_unusable (h : record.malformed = true ∨ p.pathOk ctx = false)
    (records : List AdvertisedPrefix) : p.offered ctx (record :: records) = p.offered ctx records := by
  have hfalse : (!record.malformed && p.pathOk ctx) = false := by
    rcases h with hbad | hbad <;> simp [hbad]
  rw [AdvertisedPeer.offered, List.filter_cons_of_neg (by simp [hfalse])]
  rfl

theorem AdvertisedPeer.offered_cons (hrecord : record.malformed = false) (hpath : p.pathOk ctx = true)
    (records : List AdvertisedPrefix) :
    p.offered ctx (record :: records) = (p.route ctx record).candidate :: p.offered ctx records := by
  rw [AdvertisedPeer.offered, List.filter_cons_of_pos (by simp [hrecord, hpath])]
  rfl

theorem installLearned_counters (s : RecordMerge) (route : Route) (highest : UInt64) :
    (installLearned s route highest).stats.peersChanged = s.stats.peersChanged ∧
      ((installLearned s route highest).stats.capacityRejected = s.stats.capacityRejected + 1 ∨
        (installLearned s route highest).stats.capacityRejected = s.stats.capacityRejected ∧
          ∃ r ∈ (installLearned s route highest).routing.routes, r = { route.candidate with probe := r.probe }) := by
  unfold installLearned
  -- whether older routes were cleared first does not matter
  generalize (if highest < route.sequenceNumber then (s.routing.removeOlderLearnedRoutes route.origin route.network
    route.prefixLength route.sequenceNumber).1 else s.routing) = base
  simp only
  by_cases hadded : (base.addRoute route).2 = true
  · rw [if_pos hadded]
    exact ⟨rfl, Or.inr ⟨rfl, RoutingEngine.mem_of_addRoute hadded⟩⟩
  · rw [if_neg hadded]
    exact ⟨rfl, Or.inl rfl⟩

theorem mergeRecord_counters (s : RecordMerge) (record : AdvertisedPrefix) :
    (mergeRecord ctx p s record).stats.peersChanged = s.stats.peersChanged ∧
      s.stats.capacityRejected ≤ (mergeRecord ctx p s record).stats.capacityRejected := by
  rcases usable_cases ctx p record with hunusable | ⟨hrecord, hpath⟩
  · obtain ⟨flag, heq⟩ := mergeRecord_unusable hunusable s
    rw [heq]
    exact ⟨rfl, Nat.le_refl _⟩
  rcases mergeRecord_outcome hrecord hpath s with
    ⟨-, heq⟩ | ⟨-, ⟨_, -, -, -, heq⟩ | ⟨_, -, -, -, -, heq⟩ | ⟨-, heq⟩⟩
  · rw [heq]
    exact ⟨rfl, Nat.le_refl _⟩
  · rw [heq]
    exact ⟨rfl, Nat.le_refl _⟩
  · rw [heq]
    exact ⟨rfl, Nat.le_refl _⟩
  · rw [heq]
    have hcounters := installLearned_counters s (p.route ctx record)
      (highestSequence s.routing.routes p.nodeId record.canonical record.prefixLength.toUInt32)
    refine ⟨hcounters.1, ?_⟩
    omega

theorem settled_mergeRecord (hne : p.nodeId ≠ ctx.sender) (hrecord : record.malformed = false)
    (hpath : p.pathOk ctx = true) {s : RecordMerge}
    (hcapacity : (mergeRecord ctx p s record).stats.capacityRejected = s.stats.capacityRejected) :
    (mergeRecord ctx p s record).routing.Settled (p.route ctx record).candidate := by
  -- a stored route that is the record's up to its probes settles it
  have hstored {re : RoutingEngine}
      (h : ∃ r ∈ re.routes, r = { (p.route ctx record).candidate with probe := r.probe }) :
      re.Settled (p.route ctx record).candidate := by
    obtain ⟨r, hr, heq⟩ := h
    refine Or.inr ⟨r, hr, ?_, ?_⟩
    · rw [heq]
      rfl
    · rw [heq]
  rcases mergeRecord_outcome hrecord hpath s with
    ⟨hstale, heq⟩ | ⟨-, ⟨existing, hfind, hsequence, -, heq⟩ | ⟨existing, hfind, -, -, -, heq⟩ | ⟨-, heq⟩⟩
  · rw [heq]
    exact Or.inl (outdates_candidate_iff.mpr hstale)
  · rw [heq]
    exact Or.inr ⟨existing, List.mem_of_find?_eq_some hfind, Route.key_of_find? hfind, hsequence.symm⟩
  · rw [heq]
    obtain ⟨hshape, hlimits⟩ := route_addable hne hrecord hpath
    exact hstored (RoutingEngine.mem_of_addRoute ((s.routing.addRoute_eq_true_iff _).mpr ⟨hshape, hlimits,
      Or.inl ⟨existing, List.mem_of_find?_eq_some hfind, Route.key_of_find? hfind⟩⟩))
  · rw [heq] at hcapacity ⊢
    rcases (installLearned_counters s (p.route ctx record) (highestSequence s.routing.routes p.nodeId
      record.canonical record.prefixLength.toUInt32)).2 with hrefused | ⟨-, hadded⟩
    · omega
    · exact hstored hadded

theorem foldl_mergeRecord_counters (records : List AdvertisedPrefix) (t : RecordMerge) :
    (records.foldl (mergeRecord ctx p) t).stats.peersChanged = t.stats.peersChanged ∧
      t.stats.capacityRejected ≤ (records.foldl (mergeRecord ctx p) t).stats.capacityRejected := by
  induction records generalizing t with
  | nil => exact ⟨rfl, Nat.le_refl _⟩
  | cons record records ih =>
    obtain ⟨hchanged, hcapacity⟩ := @mergeRecord_counters ctx p t record
    obtain ⟨hchanged', hcapacity'⟩ := ih (mergeRecord ctx p t record)
    exact ⟨hchanged'.trans hchanged, hcapacity.trans hcapacity'⟩

theorem Absorbed.records (hne : p.nodeId ≠ ctx.sender) (records : List AdvertisedPrefix) {t : RecordMerge}
    (h : Absorbed t.routing offers)
    (hcapacity : (records.foldl (mergeRecord ctx p) t).stats.capacityRejected = t.stats.capacityRejected) :
    Absorbed (records.foldl (mergeRecord ctx p) t).routing (offers ++ p.offered ctx records) := by
  induction records generalizing t offers with
  | nil => simpa [AdvertisedPeer.offered] using h
  | cons record records ih =>
    rw [List.foldl_cons] at hcapacity ⊢
    -- no count goes down, so none went up
    have hfirst := (@mergeRecord_counters ctx p t record).2
    have hrest := (@foldl_mergeRecord_counters ctx p records (mergeRecord ctx p t record)).2
    have hrecordCapacity : (mergeRecord ctx p t record).stats.capacityRejected = t.stats.capacityRejected := by
      omega
    rcases usable_cases ctx p record with hunusable | ⟨hrecord, hpath⟩
    · obtain ⟨flag, heq⟩ := mergeRecord_unusable hunusable t
      rw [AdvertisedPeer.offered_cons_unusable hunusable]
      refine ih ?_ (hcapacity.trans hrecordCapacity.symm)
      rw [heq]
      exact h
    · rw [AdvertisedPeer.offered_cons hrecord hpath, List.append_cons]
      exact ih (h.recordStep hne (mergeRecord_step ctx p t record) hrecord hpath
        (settled_mergeRecord hne hrecord hpath hrecordCapacity)) (hcapacity.trans hrecordCapacity.symm)

/-- The entry is taken by a merge that leaves these peers. -/
def AdvertisedPeer.taken (hashPublicKey : X25519Key → NodeId) (ctx : MergeContext) (pm : PeerManager)
    (p : AdvertisedPeer) : Bool :=
  p.nodeId ≠ ctx.self && p.nodeId ≠ ctx.sender && p.identityOk hashPublicKey &&
    (pm.peers.find? p.nodeId).any fun peer => peer.publicKey = p.publicKey

theorem taken_iff {pm : PeerManager} : p.taken hashPublicKey ctx pm = true ↔
    Accepted hashPublicKey ctx p ∧ pm.Binds p.nodeId p.publicKey := by
  simp only [AdvertisedPeer.taken, Bool.and_eq_true, decide_eq_true_eq, Option.any_eq_true, PeerManager.Binds]
  constructor
  · rintro ⟨⟨⟨hself, hsender⟩, hidentity⟩, hbinds⟩
    exact ⟨⟨hself, hsender, hidentity⟩, hbinds⟩
  · rintro ⟨⟨hself, hsender, hidentity⟩, hbinds⟩
    exact ⟨⟨⟨hself, hsender⟩, hidentity⟩, hbinds⟩

/-- What the entry offers to a merge that leaves these peers. -/
def AdvertisedPeer.offersTo (hashPublicKey : X25519Key → NodeId) (ctx : MergeContext) (pm : PeerManager)
    (p : AdvertisedPeer) : List Route :=
  if p.taken hashPublicKey ctx pm then p.offered ctx p.prefixes else []

theorem offersTo_of_binds {pm : PeerManager} (haccepted : Accepted hashPublicKey ctx p)
    (hbinds : pm.Binds p.nodeId p.publicKey) : p.offersTo hashPublicKey ctx pm = p.offered ctx p.prefixes :=
  if_pos (taken_iff.mpr ⟨haccepted, hbinds⟩)

theorem offersTo_eq_nil {pm : PeerManager}
    (h : Accepted hashPublicKey ctx p → ¬pm.Binds p.nodeId p.publicKey) : p.offersTo hashPublicKey ctx pm = [] :=
  if_neg fun htaken => h (taken_iff.mp htaken).1 (taken_iff.mp htaken).2

/-- The peer has a record with a key. -/
def PeerManager.HasKey (mgr : PeerManager) (id : NodeId) : Prop :=
  ∃ peer, mgr.peers.find? id = some peer ∧ isEmptyKey peer.publicKey = false

theorem PeerManager.conflicts_of_upsert {mgr : PeerManager} {now : Time} {id : NodeId} {publicKey : X25519Key}
    {endpoint : Option Endpoint} {trusted : Bool}
    (h : (mgr.upsert now id publicKey endpoint trusted).2 = .identityConflict) :
    ∃ peer, mgr.peers.find? id = some peer ∧ conflicts peer publicKey = true := by
  unfold upsert at h
  cases hfind : mgr.peers.find? id with
  | none =>
    rw [hfind] at h
    dsimp only at h
    split_ifs at h
  | some peer =>
    refine ⟨peer, rfl, ?_⟩
    rw [hfind] at h
    dsimp only at h
    split_ifs at h with hconflict
    all_goals exact hconflict

theorem mergeRecords_stats (s : Merge) :
    let t := p.prefixes.foldl (mergeRecord ctx p)
      { routing := s.routing, stats := s.stats, malformedRouting := !p.pathOk ctx }
    (mergeRecords ctx p s).stats.peersChanged = t.stats.peersChanged ∧
      (mergeRecords ctx p s).stats.routesInstalled = t.stats.routesInstalled ∧
      (mergeRecords ctx p s).stats.capacityRejected = t.stats.capacityRejected := by
  intro t
  unfold mergeRecords
  dsimp only
  split_ifs <;> exact ⟨rfl, rfl, rfl⟩

theorem mergeRecords_counters (s : Merge) :
    (mergeRecords ctx p s).stats.peersChanged = s.stats.peersChanged ∧
      s.stats.capacityRejected ≤ (mergeRecords ctx p s).stats.capacityRejected := by
  obtain ⟨hchanged, -, hcapacity⟩ := @mergeRecords_stats ctx p s
  rw [hchanged, hcapacity]
  exact foldl_mergeRecord_counters p.prefixes _

theorem capacityRejected_mergeEntry (s : Merge) (p : AdvertisedPeer) :
    s.stats.capacityRejected ≤ (mergeEntry hashPublicKey ctx s p).stats.capacityRejected := by
  rcases mergeEntry_outcome hashPublicKey ctx s p with
    ⟨-, _, heq⟩ | ⟨-, -, ⟨-, heq⟩ | heq⟩ | ⟨-, -, heq⟩
  · rw [heq]
  · rw [heq]
  · rw [heq]
    exact Nat.le_succ _
  · rw [heq]
    refine Nat.le_trans ?_ (mergeRecords_counters _).2
    exact Nat.le_refl _

theorem capacityRejected_entries (advertised : List AdvertisedPeer) (s : Merge) :
    s.stats.capacityRejected ≤ (advertised.foldl (mergeEntry hashPublicKey ctx) s).stats.capacityRejected :=
  Run.invariant (fun t : Merge => s.stats.capacityRejected ≤ t.stats.capacityRejected)
    (fun t p h => h.trans (capacityRejected_mergeEntry t p)) (Nat.le_refl _) advertised

theorem keeps_mergeEntry (s : Merge) (p : AdvertisedPeer) : s.peers.Keeps (mergeEntry hashPublicKey ctx s p).peers := by
  rcases mergeEntry_cases hashPublicKey ctx s p with ⟨heq, -⟩ | ⟨-, -, heq, -⟩
  · rw [heq]
    exact .refl _
  · rw [heq]
    exact PeerManager.keeps_upsert

theorem keeps_entries (advertised : List AdvertisedPeer) (s : Merge) :
    s.peers.Keeps (advertised.foldl (mergeEntry hashPublicKey ctx) s).peers :=
  Run.invariant (fun t : Merge => s.peers.Keeps t.peers) (fun t p h => h.trans (keeps_mergeEntry t p))
    (.refl _) advertised

/-- An entry that is not refused for lack of room is absorbed, as far as it is taken, and its peer has a key. -/
theorem Absorbed.entry {s : Merge} (h : Absorbed s.routing offers)
    (hcapacity : (mergeEntry hashPublicKey ctx s p).stats.capacityRejected = s.stats.capacityRejected)
    {final : PeerManager} (hfinal : (mergeEntry hashPublicKey ctx s p).peers.Keeps final) :
    Absorbed (mergeEntry hashPublicKey ctx s p).routing (offers ++ p.offersTo hashPublicKey ctx final) ∧
      (Accepted hashPublicKey ctx p → final.HasKey p.nodeId) := by
  rcases mergeEntry_outcome hashPublicKey ctx s p with
    ⟨hnot, _, heq⟩ | ⟨haccepted, hrefused, ⟨hupsert, heq⟩ | heq⟩ | ⟨haccepted, haccepts, heq⟩
  · rw [offersTo_eq_nil fun haccepted => absurd haccepted hnot, List.append_nil, heq]
    exact ⟨h, fun haccepted => absurd haccepted hnot⟩
  · -- the key that is in the way stays
    rw [heq] at hfinal ⊢
    obtain ⟨peer, hpeer, hconflict⟩ := PeerManager.conflicts_of_upsert (congrArg Prod.snd hupsert)
    simp only [PeerManager.conflicts, Bool.and_eq_true, Bool.not_eq_true', bne_iff_ne, ne_eq] at hconflict
    obtain ⟨peer', hpeer', hsame, -⟩ := hfinal p.nodeId peer hpeer
    have hkey : peer'.publicKey = peer.publicKey := hsame hconflict.1.1
    have hother : ¬final.Binds p.nodeId p.publicKey := by
      rintro ⟨peer'', hpeer'', hbound⟩
      rw [Option.some.inj (hpeer''.symm.trans hpeer')] at hbound
      exact hconflict.2 (hkey.symm.trans hbound)
    rw [offersTo_eq_nil fun _ => hother, List.append_nil]
    exact ⟨h, fun _ => ⟨peer', hpeer', by rw [hkey, hconflict.1.1]⟩⟩
  · rw [heq] at hcapacity
    exact absurd hcapacity (Nat.succ_ne_self _)
  · rw [heq] at hfinal hcapacity ⊢
    have hbinds := hfinal.binds haccepted.key.1 (PeerManager.binds_upsert haccepted.key.1 haccepts)
    rw [(mergeRecords_stats _).2.2] at hcapacity
    rw [offersTo_of_binds haccepted hbinds]
    refine ⟨@Absorbed.records ctx p offers haccepted.ne_sender p.prefixes
      ⟨s.routing, _, !p.pathOk ctx⟩ h hcapacity, fun _ => ?_⟩
    obtain ⟨peer, hpeer, hkey⟩ := hbinds
    exact ⟨peer, hpeer, by rw [hkey, haccepted.key.1]⟩

theorem Absorbed.entries (advertised : List AdvertisedPeer) {s : Merge} (h : Absorbed s.routing offers) :
    let final := advertised.foldl (mergeEntry hashPublicKey ctx) s
    final.stats.capacityRejected = s.stats.capacityRejected →
    Absorbed final.routing (offers ++ advertised.flatMap (AdvertisedPeer.offersTo hashPublicKey ctx final.peers)) ∧
      ∀ p ∈ advertised, Accepted hashPublicKey ctx p → final.peers.HasKey p.nodeId := by
  induction advertised generalizing s offers with
  | nil => exact fun _ => ⟨by simpa using h, by simp⟩
  | cons p advertised ih =>
    intro final hcapacity
    have hfirst := @capacityRejected_mergeEntry hashPublicKey ctx s p
    have hrest : (mergeEntry hashPublicKey ctx s p).stats.capacityRejected ≤ final.stats.capacityRejected :=
      capacityRejected_entries advertised (mergeEntry hashPublicKey ctx s p)
    obtain ⟨hentry, hkey⟩ := h.entry (by omega)
      (keeps_entries advertised (mergeEntry hashPublicKey ctx s p))
    obtain ⟨habsorbed, hkeys⟩ := ih hentry (show final.stats.capacityRejected = _ by omega)
    rw [List.append_assoc, ← List.flatMap_cons] at habsorbed
    exact ⟨habsorbed, List.forall_mem_cons.mpr ⟨hkey, hkeys⟩⟩

end First

/-! ### The second merge -/

theorem highestSequence_map {f : Route → Route} (hf : ∀ r, (f r).lasting = r.lasting) (routes : List Route)
    (origin : NodeId) (network : IPAddress) (prefixLength : UInt32) :
    highestSequence (routes.map f) origin network prefixLength =
      highestSequence routes origin network prefixLength := by
  have hlearned (r : Route) : RoutingEngine.isLearned origin network prefixLength (f r) =
      RoutingEngine.isLearned origin network prefixLength r := by
    have h := congrArg (RoutingEngine.isLearned origin network prefixLength) (hf r)
    exact h
  have hsequence (r : Route) : (f r).sequenceNumber = r.sequenceNumber := (Route.lasting_eq_iff.mp (hf r)).2.2.1
  unfold highestSequence
  rw [List.foldl_map]
  simp only [hlearned, hsequence]

/-- The table `re` after these offers were made to it again: each that is not outdated renews what it can. -/
def Renewed (re : RoutingEngine) (offers : List Route) (re' : RoutingEngine) : Prop :=
  re'.routes = re.routes.map fun r => (offers.filter fun offer => !re.Outdates offer).foldl Route.renewedBy r

namespace Renewed

variable {re re' : RoutingEngine} {offers : List Route} {offer : Route}

theorem outdates_iff (h : Renewed re offers re') (offer : Route) : re'.Outdates offer ↔ re.Outdates offer := by
  rw [RoutingEngine.Outdates, RoutingEngine.Outdates, h,
    highestSequence_map fun r => Route.lasting_foldl_renewedBy r _]

theorem settled (h : Renewed re offers re') (hsettled : re.Settled offer) : re'.Settled offer := by
  rcases hsettled with houtdated | ⟨r, hr, hkey, hsequence⟩
  · exact Or.inl ((h.outdates_iff offer).mpr houtdated)
  · obtain ⟨hkey', -, hsequence', -⟩ := Route.lasting_eq_iff.mp
      (Route.lasting_foldl_renewedBy r (offers.filter fun offer => !re.Outdates offer))
    refine Or.inr ⟨_, ?_, hkey'.trans hkey, hsequence'.trans hsequence⟩
    rw [h]
    exact List.mem_map_of_mem hr

theorem origin (h : Renewed re offers re') (horigin : OriginIsDestination re) : OriginIsDestination re' := by
  intro r' hr' htype
  rw [h] at hr'
  obtain ⟨r, hr, rfl⟩ := List.mem_map.mp hr'
  obtain ⟨hkey, hsame, -⟩ := Route.lasting_eq_iff.mp
    (Route.lasting_foldl_renewedBy r (offers.filter fun offer => !re.Outdates offer))
  simp only [Route.key, Prod.mk.injEq] at hkey
  obtain ⟨-, -, hkind, -, hdestination⟩ := hkey
  rw [hsame, hdestination]
  exact horigin r hr (hkind ▸ htype)

theorem routes_eq (h : Renewed re offers re') (habsorbed : Absorbed re offers) : re'.routes = re.routes := by
  rw [h]
  refine (List.map_congr_left fun r hr => ?_).trans (List.map_id re.routes)
  by_cases htop : re.AtTop r
  · -- the offers left out do not renew it, as a newer route would be beside it
    rw [Route.foldl_renewedBy_filter]
    · exact habsorbed.fixed r hr htop
    · intro offer hoffer houtdated hlasting
      simp only [Bool.not_eq_false', decide_eq_true_eq] at houtdated
      exact (RoutingEngine.outdates_iff_not_atTop (habsorbed.relay offer hoffer).1 hlasting).mp houtdated htop
  · -- no offer under its number is current
    refine Route.foldl_renewedBy_of_ne fun offer hoffer hlasting => ?_
    obtain ⟨hmem, hcurrent⟩ := List.mem_filter.mp hoffer
    simp only [Bool.not_eq_true', decide_eq_false_iff_not] at hcurrent
    exact hcurrent ((RoutingEngine.outdates_iff_not_atTop (habsorbed.relay offer hmem).1 hlasting).mpr htop)

end Renewed

section Second

variable {hashPublicKey : X25519Key → NodeId} {ctx : MergeContext} {p : AdvertisedPeer}
  {record : AdvertisedPrefix} {re : RoutingEngine} {offers : List Route}

/-- A settled record installs nothing; it renews the route it agrees with, unless it is outdated. -/
theorem mergeRecord_of_settled (hne : p.nodeId ≠ ctx.sender) (hrecord : record.malformed = false)
    (hpath : p.pathOk ctx = true) {s : RecordMerge} (horigin : OriginIsDestination s.routing)
    (hsettled : s.routing.Settled (p.route ctx record).candidate) :
    (mergeRecord ctx p s record).stats.routesInstalled = s.stats.routesInstalled ∧
      (mergeRecord ctx p s record).routing.routes =
        if s.routing.Outdates (p.route ctx record).candidate then s.routing.routes
        else s.routing.routes.map fun r => r.renewedBy (p.route ctx record).candidate := by
  rcases mergeRecord_outcome hrecord hpath s with ⟨hstale, heq⟩ | ⟨hhighest, houtcome⟩
  · rw [heq, if_pos (outdates_candidate_iff.mpr hstale)]
    exact ⟨rfl, rfl⟩
  have hcurrent : ¬s.routing.Outdates (p.route ctx record).candidate := fun h =>
    absurd (outdates_candidate_iff.mp h) (not_lt.mpr hhighest)
  rw [if_neg hcurrent]
  rcases houtcome with ⟨existing, hfind, -, hdiff, heq⟩ | ⟨existing, hfind, hsequence, hsamePath, hsameMetric, heq⟩ |
    ⟨hnew, heq⟩
  · rw [heq]
    refine ⟨rfl, ((List.map_congr_left fun r hr => Route.renewedBy_of_ne fun hlasting => ?_).trans
      (List.map_id _)).symm⟩
    obtain ⟨hkey, -, -, hsamePath, hsameMetric⟩ := Route.lasting_eq_iff.mp hlasting
    obtain rfl := RoutingEngine.eq_of_find?_key hr hkey hfind
    exact hdiff.elim (fun h => h hsamePath.symm) fun h => h hsameMetric.symm
  · rw [heq]
    refine ⟨rfl, ?_⟩
    obtain ⟨hshape, hlimits⟩ := route_addable hne hrecord hpath
    rw [RoutingEngine.routes_addRoute_of_find? hshape hlimits hfind]
    refine List.map_congr_left fun r hr => ?_
    by_cases hkey : r.key = (p.route ctx record).candidate.key
    · obtain rfl := RoutingEngine.eq_of_find?_key hr hkey hfind
      have hoffer := sameOffer_of_key horigin hr hkey
      have hlasting : r.lasting = (p.route ctx record).candidate.lasting :=
        Route.lasting_eq_iff.mpr ⟨hkey, hoffer.2.2.1, hsequence.symm, hsamePath.symm, hsameMetric.symm⟩
      have hnumber : (p.route ctx record).candidate.sequenceNumber = r.sequenceNumber := hsequence
      rw [if_pos hkey, Route.refresh, if_pos hnumber, Route.renewedBy, if_pos hlasting]
    · rw [if_neg hkey, Route.renewedBy_of_ne fun hlasting => hkey (Route.lasting_eq_iff.mp hlasting).1]
  · -- a route under the record's key and number is found
    obtain ⟨r, hr, hkey, hsequence⟩ := hsettled.resolve_left hcurrent
    obtain ⟨existing, hfind⟩ : ∃ existing,
        s.routing.routes.find? (fun r => r.key = (p.route ctx record).candidate.key) = some existing :=
      Option.isSome_iff_exists.mp (List.find?_isSome.mpr ⟨r, hr, decide_eq_true hkey⟩)
    rw [RoutingEngine.eq_of_find?_key hr hkey hfind] at hsequence
    exact absurd hsequence.symm (hnew existing hfind)

theorem Renewed.recordAgain {t : RecordMerge} (h : Renewed re offers t.routing) (horigin : OriginIsDestination re)
    (hne : p.nodeId ≠ ctx.sender) (hrecord : record.malformed = false) (hpath : p.pathOk ctx = true)
    (hsettled : re.Settled (p.route ctx record).candidate) :
    (mergeRecord ctx p t record).stats.routesInstalled = t.stats.routesInstalled ∧
      Renewed re (offers ++ [(p.route ctx record).candidate]) (mergeRecord ctx p t record).routing := by
  obtain ⟨hinstalled, hroutes⟩ := mergeRecord_of_settled hne hrecord hpath (h.origin horigin) (h.settled hsettled)
  refine ⟨hinstalled, ?_⟩
  rw [Renewed, hroutes, List.filter_append]
  by_cases houtdated : re.Outdates (p.route ctx record).candidate
  · rw [if_pos ((h.outdates_iff _).mpr houtdated), List.filter_cons_of_neg (by simp [houtdated]), List.filter_nil,
      List.append_nil]
    exact h
  · rw [if_neg fun hout => houtdated ((h.outdates_iff _).mp hout), List.filter_cons_of_pos (by simp [houtdated]),
      List.filter_nil, h, List.map_map]
    refine List.map_congr_left fun r _ => ?_
    rw [List.foldl_append]
    rfl

theorem Renewed.records (horigin : OriginIsDestination re) (hne : p.nodeId ≠ ctx.sender)
    (records : List AdvertisedPrefix) {t : RecordMerge} (h : Renewed re offers t.routing)
    (hsettled : ∀ offer ∈ p.offered ctx records, re.Settled offer) :
    (records.foldl (mergeRecord ctx p) t).stats.routesInstalled = t.stats.routesInstalled ∧
      Renewed re (offers ++ p.offered ctx records) (records.foldl (mergeRecord ctx p) t).routing := by
  induction records generalizing t offers with
  | nil => exact ⟨rfl, by simpa [AdvertisedPeer.offered] using h⟩
  | cons record records ih =>
    rw [List.foldl_cons]
    rcases usable_cases ctx p record with hunusable | ⟨hrecord, hpath⟩
    · obtain ⟨flag, heq⟩ := mergeRecord_unusable hunusable t
      rw [AdvertisedPeer.offered_cons_unusable hunusable] at hsettled ⊢
      rw [heq]
      exact ih h hsettled
    · rw [AdvertisedPeer.offered_cons hrecord hpath] at hsettled ⊢
      obtain ⟨hinstalled, hrenewed⟩ := h.recordAgain horigin hne hrecord hpath (hsettled _ List.mem_cons_self)
      obtain ⟨hinstalled', hrenewed'⟩ := ih hrenewed fun offer hoffer => hsettled offer (List.mem_cons_of_mem _ hoffer)
      rw [List.append_cons]
      exact ⟨hinstalled'.trans hinstalled, hrenewed'⟩

theorem Renewed.entryAgain (horigin : OriginIsDestination re) (hne : p.nodeId ≠ ctx.sender) {s : Merge}
    (h : Renewed re offers s.routing) (hsettled : ∀ offer ∈ p.offered ctx p.prefixes, re.Settled offer) :
    (mergeRecords ctx p s).stats.routesInstalled = s.stats.routesInstalled ∧
      Renewed re (offers ++ p.offered ctx p.prefixes) (mergeRecords ctx p s).routing := by
  rw [(mergeRecords_stats s).2.1]
  exact @Renewed.records ctx p re offers horigin hne p.prefixes ⟨s.routing, s.stats, !p.pathOk ctx⟩ h hsettled

theorem PeerManager.upsert_of_binds {mgr : PeerManager} {now : Time} {id : NodeId} {publicKey : X25519Key}
    (hkey : isEmptyKey publicKey = false) (h : mgr.Binds id publicKey) :
    mgr.upsert now id publicKey none false = (mgr, .updated) := by
  obtain ⟨peer, hpeer, rfl⟩ := h
  have hsame : mgr.peers.insert id peer = mgr.peers := SortedMap.insert_of_find? hpeer
  simp [upsert, hpeer, conflicts, hkey, hsame]

/-- The second merge so far: nothing is counted as changed, the peers are those the first merge left, and its
routes are those of the first merge with the offers so far made again. -/
structure Remerged (first : Merge) (offers : List Route) (s : Merge) : Prop where
  peersChanged : s.stats.peersChanged = 0
  routesInstalled : s.stats.routesInstalled = 0
  peers : s.peers = first.peers
  routing : Renewed first.routing offers s.routing

theorem Remerged.entry {first s : Merge} (h : Remerged first offers s) (horigin : OriginIsDestination first.routing)
    (hkey : Accepted hashPublicKey ctx p → first.peers.HasKey p.nodeId)
    (hsettled : ∀ offer ∈ p.offersTo hashPublicKey ctx first.peers, first.routing.Settled offer) :
    Remerged first (offers ++ p.offersTo hashPublicKey ctx first.peers) (mergeEntry hashPublicKey ctx s p) := by
  rcases mergeEntry_outcome hashPublicKey ctx s p with
    ⟨hnot, _, heq⟩ | ⟨haccepted, hrefused, heq⟩ | ⟨haccepted, haccepts, heq⟩
  · rw [offersTo_eq_nil fun haccepted => absurd haccepted hnot, List.append_nil, heq]
    exact ⟨h.peersChanged, h.routesInstalled, h.peers, h.routing⟩
  · have hother : ¬first.peers.Binds p.nodeId p.publicKey := by
      intro hbinds
      rw [h.peers, hbinds.accepts] at hrefused
      cases hrefused
    rw [offersTo_eq_nil fun _ => hother, List.append_nil]
    rcases heq with ⟨-, heq⟩ | heq
    · rw [heq]
      exact ⟨h.peersChanged, h.routesInstalled, h.peers, h.routing⟩
    · rw [heq]
      exact ⟨h.peersChanged, h.routesInstalled, h.peers, h.routing⟩
  · -- a key that is accepted where there is one is that key
    have hbinds : first.peers.Binds p.nodeId p.publicKey := by
      obtain ⟨peer, hpeer, hempty⟩ := hkey haccepted
      rw [h.peers] at haccepts
      refine ⟨peer, hpeer, ?_⟩
      simpa [PeerManager.accepts, hpeer, PeerManager.conflicts, hempty, haccepted.key.1] using haccepts
    have hupsert := @PeerManager.upsert_of_binds first.peers ctx.now p.nodeId p.publicKey haccepted.key.1 hbinds
    rw [offersTo_of_binds haccepted hbinds] at hsettled ⊢
    rw [heq, h.peers, hupsert]
    obtain ⟨hinstalled, hrenewed⟩ := Renewed.entryAgain (s := { s with
      peers := first.peers
      stats.accepted := s.stats.accepted + 1
      stats.peersChanged := s.stats.peersChanged + if PeerUpsertResult.updated = .updated then 0 else 1 })
      horigin haccepted.ne_sender h.routing hsettled
    refine ⟨(mergeRecords_counters _).1.trans ?_, hinstalled.trans h.routesInstalled, rfl, hrenewed⟩
    simpa using h.peersChanged

theorem Remerged.entries {first : Merge} (horigin : OriginIsDestination first.routing)
    (advertised : List AdvertisedPeer) {s : Merge} (h : Remerged first offers s)
    (hkeys : ∀ p ∈ advertised, Accepted hashPublicKey ctx p → first.peers.HasKey p.nodeId)
    (hsettled : ∀ offer ∈ advertised.flatMap (AdvertisedPeer.offersTo hashPublicKey ctx first.peers),
      first.routing.Settled offer) :
    Remerged first (offers ++ advertised.flatMap (AdvertisedPeer.offersTo hashPublicKey ctx first.peers))
      (advertised.foldl (mergeEntry hashPublicKey ctx) s) := by
  induction advertised generalizing s offers with
  | nil => simpa using h
  | cons p advertised ih =>
    rw [List.flatMap_cons, List.forall_mem_append] at hsettled
    rw [List.flatMap_cons, ← List.append_assoc]
    exact ih (h.entry horigin (hkeys p List.mem_cons_self) hsettled.1)
      (fun q hq => hkeys q (List.mem_cons_of_mem _ hq)) hsettled.2

end Second

/-- Merging a table again is a no-op. If nothing was refused for lack of room, and the origin of every learned
route the engine started with was its destination, a second merge of the same table from the same sender at
the same time counts no change, so it is not gossiped on, and leaves the peers and the ordered routes exactly as
the first merge did. -/
theorem merge_again_noop (hashPublicKey : X25519Key → NodeId) (ctx : MergeContext) (pm : PeerManager)
    (re : RoutingEngine) (advertised : List AdvertisedPeer)
    (horigin : ∀ r ∈ re.routes, r.type = .relay → r.origin = r.destination)
    (hcapacity : (mergePeerTable hashPublicKey ctx pm re advertised).stats.capacityRejected = 0) :
    let first := mergePeerTable hashPublicKey ctx pm re advertised
    let second := mergePeerTable hashPublicKey ctx first.peers first.routing advertised
    second.stats.changed = false ∧ second.peers = first.peers ∧ second.routing.routes = first.routing.routes := by
  intro first second
  have hstart : Absorbed re [] := ⟨horigin, by simp, by simp, fun r _ _ => rfl⟩
  obtain ⟨habsorbed, hkeys⟩ := hstart.entries (s := { peers := pm, routing := re }) advertised hcapacity
  rw [List.nil_append] at habsorbed
  have hfirst : Remerged first [] { peers := first.peers, routing := first.routing } :=
    ⟨rfl, rfl, rfl, (List.map_id _).symm⟩
  have hsecond := hfirst.entries habsorbed.origin advertised hkeys habsorbed.settled
  rw [List.nil_append] at hsecond
  refine ⟨?_, hsecond.peers, hsecond.routing.routes_eq habsorbed⟩
  have hpeers : second.stats.peersChanged = 0 := hsecond.peersChanged
  have hroutes : second.stats.routesInstalled = 0 := hsecond.routesInstalled
  simp [PeerTableMergeStats.changed, hpeers, hroutes]

open Overlay (sampleNodeId)

def remergeContext : MergeContext where
  self := sampleNodeId 1
  sender := sampleNodeId 2
  now := 0
  validatedAt := 0

/-- The entry of a peer that the sender reaches directly, with one record. -/
def remergeEntry (peer : UInt8) (sequenceNumber : UInt64) (leaseSeconds : UInt32) : AdvertisedPeer where
  nodeId := sampleNodeId peer
  publicKey := sampleNodeId peer
  prefixes := [{ network := .fromIpv4 0x0a000900, prefixLength := 24, sequenceNumber, leaseSeconds }]

/-- A route through the sender to peer 4 in the name of some origin. -/
def remergeRoute (origin : UInt8) : Route where
  network := .fromIpv4 0x0a000900
  prefixLength := 24
  type := .relay
  nextHop := sampleNodeId 2
  destination := sampleNodeId 4
  path := [sampleNodeId 2, sampleNodeId 4]
  origin := sampleNodeId origin
  sequenceNumber := 9
  metric := 1

def remergeEngine (origin : UInt8) : RoutingEngine := (({} : RoutingEngine).addRoute (remergeRoute origin)).1

/-- Peer 4's stored route is renewed with one lease and then with another, and an older number is refused. -/
theorem merge_again_noop_renewals :
    let advertised := [remergeEntry 4 9 60, remergeEntry 3 7 60, remergeEntry 4 9 30, remergeEntry 4 5 90]
    let first := mergePeerTable (fun key => key) remergeContext {} (remergeEngine 4) advertised
    let second := mergePeerTable (fun key => key) remergeContext first.peers first.routing advertised
    first.routing.routes ≠ (remergeEngine 4).routes ∧
      second.stats.changed = false ∧ second.peers = first.peers ∧ second.routing.routes = first.routing.routes :=
  ⟨by decide +kernel, merge_again_noop (fun key => key) remergeContext {} (remergeEngine 4)
    [remergeEntry 4 9 60, remergeEntry 3 7 60, remergeEntry 4 9 30, remergeEntry 4 5 90] (by decide +kernel)
    (by decide +kernel)⟩

/-- Peer 4's route is stored in the name of peer 3 under number 9. The first merge refuses peer 3's number 7 for
it and then overwrites it with peer 4's number 5, so the second merge installs peer 3's route. -/
theorem merge_again_changes :
    let advertised := [remergeEntry 3 7 90, remergeEntry 4 5 90]
    let first := mergePeerTable (fun key => key) remergeContext {} (remergeEngine 3) advertised
    let second := mergePeerTable (fun key => key) remergeContext first.peers first.routing advertised
    first.stats.capacityRejected = 0 ∧ second.stats.changed = true ∧
      second.routing.routes ≠ first.routing.routes := by
  decide +kernel

end Aegis
