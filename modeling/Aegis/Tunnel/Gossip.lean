import Aegis.Peer.TableCodec
import Aegis.Tunnel.Advertise
import Aegis.Tunnel.DeadDetection
import Aegis.Tunnel.Supersession

/-!
# Gossip between two nodes

An advertiser sends its table, again and again, to a receiver that merges it, while the tables of both
change. A merge treats another hop list under a known sequence number as malformed, and the advertiser passes
on the origin's number whatever happens to its own path. So the receiver follows the advertiser's path under
a new number, and keeps the hop list it has as long as the number stays.
-/

namespace Aegis

/-! ### One record in a merge -/

section Merge

variable {hashPublicKey : X25519Key → NodeId} {ctx : MergeContext} {p : AdvertisedPeer}
  {record : AdvertisedPrefix} {re re' : RoutingEngine}

theorem key_of_sameRecord {r : Route} (hvalid : r.Valid) (htype : r.type = .relay) (hnext : r.nextHop = ctx.sender)
    (hdestination : r.destination = p.nodeId) (hnetwork : record.network = r.network)
    (hlength : record.prefixLength.toUInt32 = r.prefixLength) : r.key = (p.route ctx record).candidate.key := by
  have hcanonical : record.canonical = r.network := by
    rw [AdvertisedPrefix.canonical, ← canonicalPrefix_toUInt32, hnetwork, hlength]
    exact hvalid.canonical
  rw [candidate_route]
  simp only [Route.key, AdvertisedPeer.route, hcanonical, hlength, htype, hnext, hdestination]

theorem Superseding.follows_recordStep (h : Superseding re) (hstep : RecordStep ctx p record re re')
    (hrecord : record.malformed = false) (hpath : p.pathOk ctx = true) {r : Route} (hr : r ∈ re'.routes)
    (hkey : r.key = (p.route ctx record).candidate.key) :
    r.path = p.relayPath ctx.sender ∨ record.sequenceNumber ≤ r.sequenceNumber := by
  -- a route that the addition of the record's route leaves in the table is the one of its key
  have hadd {base : RoutingEngine} (hr : r ∈ (base.addRoute (p.route ctx record)).1.routes)
      (hold : r ∈ base.routes → r.path = p.relayPath ctx.sender ∨ record.sequenceNumber ≤ r.sequenceNumber) :
      r.path = p.relayPath ctx.sender ∨ record.sequenceNumber ≤ r.sequenceNumber := by
    rcases RoutingEngine.mem_addRoute hr with hr | heq
    · exact hold hr
    · left
      rw [heq]
      rfl
  cases hstep with
  | unusable hbad => exact absurd hbad (not_unusable hrecord hpath)
  | stale _ _ hstale =>
    right
    have hoffer := sameOffer_of_key h.origin hr hkey
    rcases highestSequence_eq re.routes p.nodeId record.canonical record.prefixLength.toUInt32 with
      hzero | ⟨r₀, hr₀, hlearned, heq⟩
    · rw [hzero] at hstale
      exact absurd hstale (not_lt.mpr (UInt64.zero_le))
    · have hoffer₀ : r₀.SameOffer (p.route ctx record).candidate := sameOffer_route_iff.mpr hlearned
      rw [h.agree r hr r₀ hr₀ (hoffer.trans hoffer₀.symm), heq]
      exact hstale.le
  | inconsistent _ _ existing hfind hsequence =>
    right
    rw [hsequence, RoutingEngine.eq_of_find?_key hr hkey hfind]
  | refreshed _ _ _ existing hfind hsequence hsame =>
    refine hadd hr fun hr => Or.inl ?_
    rw [RoutingEngine.eq_of_find?_key hr hkey hfind]
    exact hsame.symm
  | joined _ _ hhighest _ =>
    refine hadd hr fun hr => Or.inr ?_
    exact (h.agree_of_highest hrecord hhighest hr (sameOffer_of_key h.origin hr hkey)).ge
  | superseded _ _ hhighest =>
    refine hadd hr fun hr => ?_
    have hold := RoutingEngine.mem_of_mem_removeOlderLearnedRoutes hr
    exact absurd (sameOffer_of_key h.origin hold hkey) (not_sameOffer_of_cleared hrecord hhighest hr)

theorem Superseding.follows_merge (h : Superseding re) {pm : PeerManager} {advertised : List AdvertisedPeer}
    (hp : p ∈ advertised) (hunique : ∀ p' ∈ advertised, p'.nodeId = p.nodeId → p' = p)
    (haccepted : Accepted hashPublicKey ctx p) (hbinds : pm.Binds p.nodeId p.publicKey)
    (hmem : record ∈ p.prefixes) (hrecord : record.malformed = false) (hpath : p.pathOk ctx = true) {r : Route}
    (hr : r ∈ (mergePeerTable hashPublicKey ctx pm re advertised).routing.routes)
    (hkey : r.key = (p.route ctx record).candidate.key) :
    r.path = p.relayPath ctx.sender ∨ record.sequenceNumber ≤ r.sequenceNumber := by
  have hinv : KeptByMerge hashPublicKey ctx advertised fun pm' re' => Superseding re' ∧ pm.Keeps pm' :=
    ⟨fun _ _ _ _ _ _ hinv => ⟨hinv.1, hinv.2.trans PeerManager.keeps_upsert⟩,
      fun _ _ _ _ _ _ _ _ _ hstep hinv => ⟨hinv.1.recordStep hstep, hinv.2⟩⟩
  have hgoal : KeptByMerge hashPublicKey ctx advertised fun _ re' => ∀ r ∈ re'.routes,
      r.key = (p.route ctx record).candidate.key →
        r.path = p.relayPath ctx.sender ∨ record.sequenceNumber ≤ r.sequenceNumber := by
    refine ⟨fun _ _ _ _ _ _ hgoal => hgoal, fun _ re₁ re₂ p' hp' _ _ record' _ hstep hgoal r hr hkey => ?_⟩
    rcases mem_of_recordStep hstep hr with hr | ⟨-, -, heq⟩
    · exact hgoal r hr hkey
    · -- a route that is new under the key comes from the entry itself
      have hdestination : p'.nodeId = p.nodeId := by
        rw [heq] at hkey
        simp only [Route.key, Prod.mk.injEq] at hkey
        exact hkey.2.2.2.2
      obtain rfl := hunique p' hp' hdestination
      left
      rw [heq]
      rfl
  refine hinv.reaches hgoal hp haccepted (fun pm' re' hinv' => (hinv'.2.binds haccepted.key.1 hbinds).accepts) hmem
    (fun _ _ _ hstep hinv' r hr hkey => hinv'.1.follows_recordStep hstep hrecord hpath hr hkey)
    ⟨h, PeerManager.Keeps.refl pm⟩ r hr hkey

end Merge

/-! ### The two nodes -/

/-- Who advertises, and to whom. -/
structure GossipEnds where
  advertiser : Advertiser
  receiver : NodeId

structure GossipPair where
  advertiser : Overlay := {}
  receiver : Overlay := {}
deriving DecidableEq

def OverlayAction.mergeContext? : OverlayAction → Option MergeContext
  | .merge ctx _ => some ctx
  | _ => none

inductive GossipAction where
  | advertiser (a : OverlayAction)
  | receiver (a : OverlayAction)
  /-- The advertiser sends its table and the receiver merges it. -/
  | gossip (sent now validatedAt : Time)

namespace GossipPair

variable (hashPublicKey : X25519Key → NodeId) (timers : PeerTimers) (ends : GossipEnds)

/-- The table as it arrives, unless it exceeds the limits of the wire format. -/
def table (sent : Time) (s : GossipPair) : Option (List AdvertisedPeer) :=
  (serializePeerTable (ends.advertiser.buildAdvertisedPeers sent s.advertiser)).bind deserializePeerTable

def mergeContext (now validatedAt : Time) : MergeContext where
  self := ends.receiver
  sender := ends.advertiser.nodeId
  now := now
  validatedAt := validatedAt

def step (s : GossipPair) : GossipAction → GossipPair
  | .advertiser a => { s with advertiser := s.advertiser.step hashPublicKey timers a }
  | .receiver a => { s with receiver := s.receiver.step hashPublicKey timers a }
  | .gossip sent now validatedAt =>
    match s.table ends sent with
    | none => s
    | some table =>
      { s with
        receiver := s.receiver.step hashPublicKey timers (.merge (mergeContext ends now validatedAt) table) }

def run (s : GossipPair) (actions : List GossipAction) : GossipPair :=
  actions.foldl (step hashPublicKey timers ends) s

/-- The two merge as themselves; the receiver takes the advertiser's tables in gossip steps only, at which no
path of the advertiser to a third node leads through the receiver. -/
def Admissible (s : GossipPair) : GossipAction → Prop
  | .advertiser a => ∀ ctx ∈ a.mergeContext?, ctx.self = ends.advertiser.nodeId
  | .receiver a => ∀ ctx ∈ a.mergeContext?, ctx.self = ends.receiver ∧ ctx.sender ≠ ends.advertiser.nodeId
  | .gossip _ _ _ => ∀ r ∈ s.advertiser.routing.routes, r.destination ≠ ends.receiver → ends.receiver ∉ r.path

instance (s : GossipPair) : ∀ a, Decidable (s.Admissible ends a)
  | .advertiser _ => inferInstanceAs (Decidable (∀ ctx ∈ _, _))
  | .receiver _ => inferInstanceAs (Decidable (∀ ctx ∈ _, _))
  | .gossip _ _ _ => inferInstanceAs (Decidable (∀ r ∈ _, _))

/-- Neither node has learned a route yet. -/
structure Fresh (s : GossipPair) : Prop where
  keyed : s.advertiser.peers.Keyed
  advertiser : ∀ r ∈ s.advertiser.routing.routes, r.type ≠ .relay
  receiver : ∀ r ∈ s.receiver.routing.routes, r.type ≠ .relay

/-- What every run keeps. A route that the receiver has from the advertiser leads to a third node, whose
verified key both have recorded. -/
structure Gossiped (s : GossipPair) : Prop where
  superseding : Superseding s.receiver.routing
  keyed : s.advertiser.peers.Keyed
  paths : ∀ r ∈ s.advertiser.routing.routes, r.type = .relay → ends.advertiser.nodeId ∉ r.path
  learned : ∀ r ∈ s.receiver.routing.routes, r.type = .relay → r.nextHop = ends.advertiser.nodeId →
    r.destination ≠ ends.receiver ∧ ∃ publicKey, isEmptyKey publicKey = false ∧
      hashPublicKey publicKey = r.destination ∧ s.advertiser.peers.Binds r.destination publicKey ∧
      s.receiver.peers.Binds r.destination publicKey

theorem Fresh.gossiped {s : GossipPair} (h : s.Fresh) : s.Gossiped hashPublicKey ends where
  superseding := ⟨fun r hr _ _ hoffer => absurd hoffer.1 (h.receiver r hr),
    fun r hr htype => absurd htype (h.receiver r hr)⟩
  keyed := h.keyed
  paths r hr htype := absurd htype (h.advertiser r hr)
  learned r hr htype := absurd htype (h.receiver r hr)

variable {hashPublicKey timers ends} {s : GossipPair}

/-! ### The table that arrives -/

variable {table : List AdvertisedPeer}

theorem table_eq_some {sent : Time} (h : s.table ends sent = some table) :
    table = (ends.advertiser.buildAdvertisedPeers sent s.advertiser).map AdvertisedPeer.canonicalized ∧
    ∀ p ∈ table, p.path.length ≤ PEER_TABLE_MAX_PATH_HOPS ∧ p.prefixes.length ≤ PEER_TABLE_MAX_PREFIXES ∧
      ∀ record ∈ p.prefixes, record.encodable = true := by
  obtain ⟨data, hdata, hread⟩ := Option.bind_eq_some_iff.mp h
  rw [deserializePeerTable_serialize hdata] at hread
  obtain rfl := Option.some.inj hread
  obtain ⟨-, -, -, hentries⟩ := serializePeerTable_eq_some hdata
  refine ⟨rfl, fun p hp => ?_⟩
  obtain ⟨q, hq, rfl⟩ := List.mem_map.mp hp
  obtain ⟨hhops, hprefixes, hrecords⟩ := hentries q hq
  refine ⟨hhops, by simpa [AdvertisedPeer.canonicalized] using hprefixes, fun record hrecord => ?_⟩
  obtain ⟨record', hrecord', rfl⟩ := List.mem_map.mp hrecord
  rw [AdvertisedPrefix.encodable_canonicalized, hrecords record' hrecord']

section

variable (hkeyed : s.advertiser.peers.Keyed)
include hkeyed

theorem mem_table {sent : Time} (h : s.table ends sent = some table)
    {p : AdvertisedPeer} (hp : p ∈ table) (hne : p.nodeId ≠ ends.advertiser.nodeId) :
    ∃ peer, s.advertiser.peers.peers.find? p.nodeId = some peer ∧
      p = (Advertiser.advertisedEntry sent s.advertiser.routing.routes peer).canonicalized := by
  obtain ⟨rfl, -⟩ := table_eq_some h
  obtain ⟨q, hq, rfl⟩ := List.mem_map.mp hp
  obtain ⟨id, peer, hpeer, rfl⟩ := Advertiser.mem_buildAdvertisedPeers hq hne
  refine ⟨peer, ?_, rfl⟩
  have hid : (Advertiser.advertisedEntry sent s.advertiser.routing.routes peer).canonicalized.nodeId = id :=
    (Advertiser.identity_advertisedEntry _ _ peer).1.trans (hkeyed id peer hpeer)
  rw [hid]
  exact hpeer

theorem unique_of_mem_table {sent : Time} (h : s.table ends sent = some table) {p : AdvertisedPeer} (hp : p ∈ table)
    (hne : p.nodeId ≠ ends.advertiser.nodeId) : ∀ p' ∈ table, p'.nodeId = p.nodeId → p' = p := by
  intro p' hp' hid
  obtain ⟨peer, hpeer, heq⟩ := mem_table hkeyed h hp hne
  obtain ⟨peer', hpeer', heq'⟩ := mem_table hkeyed h hp' (hid ▸ hne)
  rw [hid, hpeer] at hpeer'
  rw [heq, heq', Option.some.inj hpeer']

theorem binds_of_mem_table {sent : Time} (h : s.table ends sent = some table) {p : AdvertisedPeer} (hp : p ∈ table)
    (hne : p.nodeId ≠ ends.advertiser.nodeId) : s.advertiser.peers.Binds p.nodeId p.publicKey := by
  obtain ⟨peer, hpeer, heq⟩ := mem_table hkeyed h hp hne
  refine ⟨peer, hpeer, ?_⟩
  rw [heq]
  exact (Advertiser.identity_advertisedEntry _ _ peer).2.symm

theorem held_of_mem_table {sent : Time} (h : s.table ends sent = some table)
    {p : AdvertisedPeer} (hp : p ∈ table) (hne : p.nodeId ≠ ends.advertiser.nodeId) {record : AdvertisedPrefix}
    (hrecord : record ∈ p.prefixes) :
    ∃ held ∈ s.advertiser.routing.routes, held.destination = p.nodeId ∧
      learnedRouteLeaseExpired held sent = false ∧ p.hops = held.path := by
  obtain ⟨peer, -, rfl⟩ := mem_table hkeyed h hp hne
  rw [Advertiser.advertisedEntry_eq] at hrecord ⊢
  cases hbacking : Advertiser.backing sent s.advertiser.routing.routes peer.nodeId with
  | nil => simp [AdvertisedPeer.canonicalized, hbacking] at hrecord
  | cons held rest =>
    have hheld : held ∈ Advertiser.backing sent s.advertiser.routing.routes peer.nodeId := by simp [hbacking]
    obtain ⟨hmem, hdestination, hexpired⟩ := Advertiser.mem_backing.mp hheld
    refine ⟨held, hmem, hdestination, hexpired, ?_⟩
    have hpath := (s.advertiser.routing.invariant.valid held hmem).path_ne_nil
    simp [AdvertisedPeer.hops, AdvertisedPeer.canonicalized, hpath]

end

section

variable (h : s.Gossiped hashPublicKey ends)
include h

theorem pathOk_of_held (hdistinct : ends.advertiser.nodeId ≠ ends.receiver)
    (now validatedAt : Time) {p : AdvertisedPeer} {held : Route} (hheld : held ∈ s.advertiser.routing.routes)
    (hdestination : held.destination = p.nodeId) (hhops : p.hops = held.path)
    (hne : p.nodeId ≠ ends.advertiser.nodeId) (haround : ends.receiver ∉ held.path) :
    p.pathOk (mergeContext ends now validatedAt) = true := by
  have hvalid := s.advertiser.routing.invariant.valid held hheld
  have hpath : held.path.getLast? = some p.nodeId ∧ held.path.Nodup ∧ ends.advertiser.nodeId ∉ held.path := by
    rcases hvalid.direct_or_relay with htype | htype
    · rw [(hvalid.direct htype).2, hdestination]
      simpa using hne.symm
    · obtain ⟨-, -, hlast, hnodup⟩ := hvalid.relay htype
      exact ⟨hdestination ▸ hlast, hnodup, h.paths held hheld htype⟩
  obtain ⟨hlast, hnodup, hloop⟩ := hpath
  have hrelay : p.relayPath (mergeContext ends now validatedAt).sender = ends.advertiser.nodeId :: held.path := by
    rw [AdvertisedPeer.relayPath, hhops]
    rfl
  simp only [AdvertisedPeer.pathOk, hrelay, Bool.and_eq_true, decide_eq_true_eq]
  refine ⟨⟨?_, ?_⟩, List.nodup_cons.mpr ⟨hloop, hnodup⟩⟩
  · rw [List.getLast?_cons, hlast]
    rfl
  · exact List.not_mem_cons_of_ne_of_not_mem hdistinct.symm haround

/-! ### The invariant -/

theorem Gossiped.advertiser {a : OverlayAction} (hok : s.Admissible ends (.advertiser a)) :
    Gossiped hashPublicKey ends { s with advertiser := s.advertiser.step hashPublicKey timers a } where
  superseding := h.superseding
  keyed := Overlay.keyed_step _ a h.keyed
  paths r hr htype := by
    rcases Overlay.mem_step_of_relay hr htype with ⟨old, hold, heq⟩ | ⟨ctx, _, rfl, p, -, record, hlearned⟩
    · rw [heq] at htype ⊢
      exact h.paths old hold htype
    · have hself : ctx.self = ends.advertiser.nodeId := hok ctx rfl
      rw [hlearned.path, ← hself]
      exact (AdvertisedPeer.relayPath_of_pathOk hlearned.pathOk).2.1
  learned r hr htype hnext := by
    obtain ⟨hne, publicKey, hkey, hhash, hadvertiser, hreceiver⟩ := h.learned r hr htype hnext
    exact ⟨hne, publicKey, hkey, hhash, (Overlay.peersKept_step _ a).keeps.binds hkey hadvertiser, hreceiver⟩

/-- A receiver that keeps its peers, whose learned routes agree and whose routes through the advertiser were
there before or lead to peers that both have recorded. -/
theorem Gossiped.receiver {t : Overlay} (hkeeps : s.receiver.peers.Keeps t.peers) (hsuperseding : Superseding t.routing)
    (hroutes : ∀ r ∈ t.routing.routes, r.type = .relay → r.nextHop = ends.advertiser.nodeId →
      (∃ old ∈ s.receiver.routing.routes, r = { old with probe := r.probe }) ∨
      r.destination ≠ ends.receiver ∧ ∃ publicKey, isEmptyKey publicKey = false ∧
        hashPublicKey publicKey = r.destination ∧ s.advertiser.peers.Binds r.destination publicKey ∧
        t.peers.Binds r.destination publicKey) :
    Gossiped hashPublicKey ends { s with receiver := t } where
  superseding := hsuperseding
  keyed := h.keyed
  paths := h.paths
  learned r hr htype hnext := by
    rcases hroutes r hr htype hnext with ⟨old, hold, heq⟩ | hnew
    · rw [heq] at htype hnext ⊢
      obtain ⟨hne, publicKey, hkey, hhash, hadvertiser, hreceiver⟩ := h.learned old hold htype hnext
      exact ⟨hne, publicKey, hkey, hhash, hadvertiser, hkeeps.binds hkey hreceiver⟩
    · exact hnew

theorem Gossiped.receiver_step {a : OverlayAction} (hok : s.Admissible ends (.receiver a)) :
    Gossiped hashPublicKey ends { s with receiver := s.receiver.step hashPublicKey timers a } := by
  refine h.receiver (Overlay.peersKept_step _ a).keeps (Overlay.superseding_step _ a h.superseding) ?_
  intro r hr htype hnext
  rcases Overlay.mem_step_of_relay hr htype with hold | ⟨ctx, _, rfl, p, -, record, hlearned⟩
  · exact Or.inl hold
  · obtain ⟨-, hsender⟩ : ctx.self = ends.receiver ∧ ctx.sender ≠ ends.advertiser.nodeId := hok ctx rfl
    exact absurd (hlearned.nextHop.symm.trans hnext) hsender

theorem Gossiped.gossip {sent now validatedAt : Time} (htable : s.table ends sent = some table) :
    Gossiped hashPublicKey ends { s with
      receiver := s.receiver.step hashPublicKey timers (.merge (mergeContext ends now validatedAt) table) } := by
  refine h.receiver (Overlay.peersKept_step _ _).keeps (Overlay.superseding_step _ _ h.superseding) ?_
  intro r hr htype hnext
  rcases mem_mergePeerTable hr with hold | ⟨p, hp, record, hlearned, hbinds⟩
  · exact Or.inl ⟨r, hold, rfl⟩
  · obtain ⟨hkey, hhash⟩ := hlearned.accepted.key
    have hadvertiser := binds_of_mem_table h.keyed htable hp hlearned.accepted.ne_sender
    rw [hlearned.destination]
    exact Or.inr ⟨hlearned.accepted.ne_self, p.publicKey, hkey, hhash, hadvertiser, hbinds⟩

theorem Gossiped.step {a : GossipAction} (hok : s.Admissible ends a) :
    (s.step hashPublicKey timers ends a).Gossiped hashPublicKey ends := by
  cases a with
  | advertiser a => exact h.advertiser hok
  | receiver a => exact h.receiver_step hok
  | gossip sent now validatedAt =>
    simp only [GossipPair.step]
    cases htable : s.table ends sent with
    | none => exact h
    | some table => exact h.gossip htable

theorem Gossiped.run {actions : List GossipAction}
    (hrun : Run.Along (GossipPair.step hashPublicKey timers ends) (Admissible ends) s actions) :
    (s.run hashPublicKey timers ends actions).Gossiped hashPublicKey ends :=
  hrun.invariant (Gossiped hashPublicKey ends) (fun _ _ hinv hok => hinv.step hok) h

/-! ### Hop lists -/

theorem Gossiped.accepted (now validatedAt : Time) {sent : Time}
    (htable : s.table ends sent = some table) {p : AdvertisedPeer} (hp : p ∈ table)
    (hne : p.nodeId ≠ ends.advertiser.nodeId) {r : Route} (hr : r ∈ s.receiver.routing.routes)
    (htype : r.type = .relay) (hnext : r.nextHop = ends.advertiser.nodeId) (hdestination : r.destination = p.nodeId) :
    Accepted hashPublicKey (mergeContext ends now validatedAt) p ∧
      s.receiver.peers.Binds p.nodeId p.publicKey := by
  obtain ⟨hreceiver, publicKey, hkey, hhash, ⟨known, hknown, hbound⟩, hbinds⟩ := h.learned r hr htype hnext
  rw [hdestination] at hreceiver hhash hknown hbinds
  have hsame : p.publicKey = publicKey := by
    obtain ⟨peer, hpeer, hrecorded⟩ := binds_of_mem_table h.keyed htable hp hne
    rw [hpeer] at hknown
    rw [← hbound, ← hrecorded, Option.some.inj hknown]
  obtain ⟨hhops, hprefixes, -⟩ := (table_eq_some htable).2 p hp
  rw [hsame]
  refine ⟨⟨hreceiver, hne, ?_⟩, hbinds⟩
  simp only [AdvertisedPeer.identityOk, Bool.and_eq_true, decide_eq_true_eq, hsame]
  exact ⟨⟨⟨hhops, hprefixes⟩, beq_eq_false_iff_ne.mp hkey⟩, hhash⟩

end

/-- Learned hop lists and the advertiser. At every gossip step of a run, after the merge: a route of the
receiver through the advertiser, over a prefix the advertiser has just advertised for the route's destination,
has the path of an unexpired route that the advertiser holds, behind the advertiser; or the receiver had
exactly this route before, and no record of the table over the prefix has a higher sequence number, records
with the largest metric apart. -/
theorem learned_hops_follow_advertiser (hashPublicKey : X25519Key → NodeId) (timers : PeerTimers)
    (ends : GossipEnds) (hdistinct : ends.advertiser.nodeId ≠ ends.receiver) (s₀ : GossipPair) (hfresh : s₀.Fresh)
    (actions : List GossipAction)
    (hrun : Run.Along (GossipPair.step hashPublicKey timers ends) (Admissible ends) s₀ actions)
    (sent now validatedAt : Time) :
    let s := s₀.run hashPublicKey timers ends actions
    let s' := s.step hashPublicKey timers ends (.gossip sent now validatedAt)
    s.Admissible ends (.gossip sent now validatedAt) → ∀ table, s.table ends sent = some table →
    ∀ r ∈ s'.receiver.routing.routes, r.type = .relay → r.nextHop = ends.advertiser.nodeId →
    ∀ p ∈ table, p.nodeId = r.destination → ∀ record ∈ p.prefixes,
      record.network = r.network → record.prefixLength.toUInt32 = r.prefixLength →
      (∃ held ∈ s.advertiser.routing.routes, held.destination = r.destination ∧
        learnedRouteLeaseExpired held sent = false ∧ r.path = ends.advertiser.nodeId :: held.path) ∨
      (r ∈ s.receiver.routing.routes ∧ ∀ record' ∈ p.prefixes, record'.network = r.network →
        record'.prefixLength.toUInt32 = r.prefixLength → record'.metric < ROUTE_MAX_METRIC →
        record'.sequenceNumber ≤ r.sequenceNumber) := by
  intro s s' hok table htable r hr htype hnext p hp hdestination record hrecord hnetwork hlength
  have hs : s.Gossiped hashPublicKey ends := (hfresh.gossiped hashPublicKey ends).run hrun
  have hvalid := s'.receiver.routing.invariant.valid r hr
  have hr : r ∈ (mergePeerTable hashPublicKey (mergeContext ends now validatedAt) s.receiver.peers s.receiver.routing
      table).routing.routes := by
    simpa only [s', GossipPair.step, htable, Overlay.step] using hr
  have hne : p.nodeId ≠ ends.advertiser.nodeId := by
    rw [hdestination, ← hnext]
    exact (hvalid.relay htype).1.symm
  have hunique := unique_of_mem_table hs.keyed htable hp hne
  obtain ⟨held, hheld, hto, hexpired, hhops⟩ := held_of_mem_table hs.keyed htable hp hne hrecord
  by_cases hpath : r.path = ends.advertiser.nodeId :: held.path
  · exact Or.inl ⟨held, hheld, hto.trans hdestination, hexpired, hpath⟩
  have hrelay : p.relayPath ends.advertiser.nodeId = ends.advertiser.nodeId :: held.path := by
    rw [AdvertisedPeer.relayPath, hhops]
  right
  have hold : r ∈ s.receiver.routing.routes := by
    rcases mem_mergePeerTable hr with hold | ⟨p', hp', record', hlearned, -⟩
    · exact hold
    · -- the entry's route has the entry's path
      obtain rfl := hunique p' hp' (hlearned.destination.symm.trans hdestination.symm)
      exact absurd (hlearned.path.trans hrelay) hpath
  refine ⟨hold, fun record' hrecord' hnetwork' hlength' hmetric => ?_⟩
  obtain ⟨haccepted, hbinds⟩ := hs.accepted now validatedAt htable hp hne hold htype hnext hdestination.symm
  have hpathOk := pathOk_of_held hs hdistinct now validatedAt hheld hto hhops hne
    (hok held hheld (by rw [hto]; exact haccepted.ne_self))
  have hwellFormed := AdvertisedPrefix.wellFormed_of_encodable
    (((table_eq_some htable).2 p hp).2.2 record' hrecord') hmetric
  have hkey : r.key = (p.route (mergeContext ends now validatedAt) record').candidate.key :=
    key_of_sameRecord hvalid htype hnext hdestination.symm hnetwork' hlength'
  rcases hs.superseding.follows_merge hp hunique haccepted hbinds hrecord' hwellFormed hpathOk hr hkey with
    hfollows | hle
  · exact absurd (hfollows.trans hrelay) hpath
  · exact hle

/-! ### A path that changes under one number -/

open Overlay (sampleNodeId)

def sampleGossipEnds : GossipEnds where
  advertiser := Advertiser.sampleAdvertiser
  receiver := sampleNodeId 9

/-- A run of the two nodes from empty tables, and a gossip step at the end of it. -/
def gossipRun (actions : List GossipAction) : GossipPair :=
  ({} : GossipPair).run (fun key => key) {} sampleGossipEnds actions

def gossipStep (s : GossipPair) (now : Time) : GossipPair :=
  s.step (fun key => key) {} sampleGossipEnds (.gossip now now now)

/-- Neighbour `via` advertises to the advertiser that it reaches peer 3 and its prefix. -/
def reachesThree (via : UInt8) (now : Time) : GossipAction :=
  .advertiser (.merge { self := sampleNodeId 1, sender := sampleNodeId via, now := now, validatedAt := now }
    [{ nodeId := sampleNodeId 3, publicKey := sampleNodeId 3,
        prefixes := [{ network := .fromIpv4 0x0a000900, prefixLength := 24 }] }])

/-- The advertiser reaches peer 3 through peer 2 and gossips, loses peer 2, and then reaches peer 3 through
peer 4. -/
def reroutedGossip : List GossipAction :=
  [reachesThree 2 1, .gossip 2 2 2, .advertiser (.removeRoute (sampleNodeId 2)), reachesThree 4 3]

/-- What the receiver makes of the first table. -/
def learnedThroughTwo : Route where
  network := .fromIpv4 0x0a000900
  prefixLength := 24
  type := .relay
  nextHop := sampleNodeId 1
  destination := sampleNodeId 3
  path := [sampleNodeId 1, sampleNodeId 2, sampleNodeId 3]
  origin := sampleNodeId 3
  advertiser := sampleNodeId 1
  metric := 2
  validatedAt := 2

/-- The entry for peer 3 in the second table. -/
def entryThroughFour : AdvertisedPeer where
  nodeId := sampleNodeId 3
  publicKey := sampleNodeId 3
  path := [sampleNodeId 4, sampleNodeId 3]
  prefixes := [{ network := .fromIpv4 0x0a000900, prefixLength := 24, metric := 1 }]

theorem fresh_empty : ({} : GossipPair).Fresh := by
  refine ⟨fun id peer h => ?_, by simp, by simp⟩
  simp at h

/-- After the next gossip step the receiver still goes through peer 2, with which the advertiser has no route
left. -/
theorem learned_hops_keep_old_path :
    let s := gossipRun reroutedGossip
    Run.Along (GossipPair.step (fun key => key) {} sampleGossipEnds) (Admissible sampleGossipEnds) {}
      (reroutedGossip ++ [.gossip 4 4 4]) ∧
    ∃ r ∈ (gossipStep s 4).receiver.routing.routes, r.type = .relay ∧ r.nextHop = sampleNodeId 1 ∧
      learnedRouteLeaseExpired r 4 = false ∧
      (∃ p ∈ (s.table sampleGossipEnds 4).getD [], p.nodeId = r.destination ∧ ∃ record ∈ p.prefixes,
        record.network = r.network ∧ record.prefixLength.toUInt32 = r.prefixLength) ∧
      ∀ held ∈ s.advertiser.routing.routes, held.destination = r.destination →
        r.path ≠ sampleNodeId 1 :: held.path := by
  refine ⟨by decide +kernel, learnedThroughTwo, by decide +kernel, rfl, rfl, by decide, ?_, by decide +kernel⟩
  exact ⟨entryThroughFour, by decide +kernel, rfl, _, List.mem_singleton_self _, rfl, rfl⟩

/-- The first table is followed. -/
theorem learned_hops_follow_first_table :
    let s := gossipRun [reachesThree 2 1]
    learnedThroughTwo ∈ (gossipStep s 2).receiver.routing.routes ∧
    ∃ held ∈ s.advertiser.routing.routes, held.destination = sampleNodeId 3 ∧
      learnedRouteLeaseExpired held 2 = false ∧ learnedThroughTwo.path = sampleNodeId 1 :: held.path := by
  have hr : learnedThroughTwo ∈ (gossipStep (gossipRun [reachesThree 2 1]) 2).receiver.routing.routes := by
    decide +kernel
  have hnew : learnedThroughTwo ∉ (gossipRun [reachesThree 2 1]).receiver.routing.routes := by decide +kernel
  obtain ⟨table, htable, hentry⟩ : ∃ table, (gossipRun [reachesThree 2 1]).table sampleGossipEnds 2 = some table ∧
      { entryThroughFour with path := [sampleNodeId 2, sampleNodeId 3] } ∈ table :=
    ⟨((gossipRun [reachesThree 2 1]).table sampleGossipEnds 2).getD [], by decide +kernel, by decide +kernel⟩
  refine ⟨hr, ?_⟩
  unfold gossipStep gossipRun at *
  rcases learned_hops_follow_advertiser (fun key => key) {} sampleGossipEnds (by decide) {} fresh_empty
    [reachesThree 2 1] (by decide +kernel) 2 2 2 (by decide +kernel) table htable learnedThroughTwo
    hr rfl rfl _ hentry rfl _ (List.mem_singleton_self _) rfl rfl with hheld | ⟨hold, -⟩
  · exact hheld
  · exact absurd hold hnew

end GossipPair

end Aegis
