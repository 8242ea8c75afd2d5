import Aegis.Identity.Revocation
import Aegis.Lib.Run
import Aegis.Peer.Liveness
import Aegis.Tunnel.DataPath

/-!
# Announcing revocations

`Tunnel::announce_membership_revocations`: every peer with an endpoint and a session is sent the stored
revocations of the local network, sixteen to a frame, and the first frame that cannot be sent ends the
announcement to that peer.

A batch is cut by the number of its records and not by its size, so the first batch decides: if its frame is
larger than the datagrams of the configured underlay, the peer is told of no revocation at all
(`revocations_announced_iff`). With the default underlay that is so from eight revocations on.
-/

namespace Aegis

variable {H : Type} {E : SignatureScheme}

def TYPE_MEMBERSHIP_REVOCATION : UInt8 := 0x11

/-- A tunnel's configuration with the issuer whose revocations it takes. -/
structure MembershipConfig extends TunnelConfig where
  trustedMembershipIssuer : Option SigningKey := none

/-- The largest datagram that the transport is told to send. -/
def TunnelConfig.datagramBudget (cfg : TunnelConfig) : Nat := cfg.underlayMtu - OUTER_IPV4_UDP_OVERHEAD

/-- The state of a node that announcing works on. -/
structure RevocationGossip (E : SignatureScheme) (H : Type) where
  peers : PeerManager := {}
  sessions : SessionManager H := {}
  transport : Transport := {}
  membershipRevocations : MembershipRevocationStore E := {}

/-- A batch on its way to a peer: the frame it was sealed in, unless encryption failed, and whether the
transport took the frame. -/
structure Announcement where
  peerId : NodeId
  endpoint : Endpoint
  frame : Option (List UInt8)
  queued : Bool
deriving DecidableEq

namespace RevocationGossip

/-- The stored revocations of the local network, by the trusted issuer. -/
def localNetworkRevocations (cfg : MembershipConfig) (s : RevocationGossip E H) : List MembershipRevocation :=
  s.membershipRevocations.records.filter fun revocation =>
    revocation.networkId = cfg.session.identity.networkId &&
      cfg.trustedMembershipIssuer = some revocation.issuerSigningPublicKey

def offsets (count : Nat) : List Nat :=
  (List.range ((count + (MEMBERSHIP_REVOCATION_MAX_RECORDS - 1)) / MEMBERSHIP_REVOCATION_MAX_RECORDS)).map
    (MEMBERSHIP_REVOCATION_MAX_RECORDS * ·)

def batchAt (revocations : List MembershipRevocation) (offset : Nat) : List MembershipRevocation :=
  (revocations.drop offset).take MEMBERSHIP_REVOCATION_MAX_RECORDS

/-- The loop over the batches for one peer; a batch that cannot be sent ends it. -/
def announceTo (P : Primitives H) (cfg : MembershipConfig) (peerId : NodeId) (endpoint : Endpoint)
    (revocations : List MembershipRevocation) (draws : Nat → Entropy) :
    List Nat → RevocationGossip E H → RevocationGossip E H × List Announcement
  | [], s => (s, [])
  | offset :: rest, s =>
    match serializeMembershipRevocations E (batchAt revocations offset) with
    | none => (s, [])
    | some payload =>
      match s.sessions.encryptMessage P cfg.session peerId TYPE_MEMBERSHIP_REVOCATION payload 0 (draws offset) with
      | (sessions, none) => ({ s with sessions }, [⟨peerId, endpoint, none, false⟩])
      | (sessions, some frame) =>
        let answer := s.transport.send frame endpoint
        let s := { s with sessions, transport := answer.2 }
        if answer.1 then
          let later := announceTo P cfg peerId endpoint revocations draws rest s
          (later.1, ⟨peerId, endpoint, some frame, true⟩ :: later.2)
        else (s, [⟨peerId, endpoint, some frame, false⟩])

/-- One turn of the loop over the peers. -/
def announceToPeer (P : Primitives H) (cfg : MembershipConfig) (exclude : Option NodeId)
    (revocations : List MembershipRevocation) (draws : NodeId → Nat → Entropy) (s : RevocationGossip E H)
    (peer : Peer) : RevocationGossip E H × List Announcement :=
  if exclude = some peer.nodeId then (s, [])
  else
    match peer.endpoint with
    | none => (s, [])
    | some endpoint =>
      if (s.sessions.findSessionLocked peer.nodeId).isNone then (s, [])
      else
        s.announceTo P cfg peer.nodeId endpoint revocations (draws peer.nodeId) (offsets revocations.length)

def announceMembershipRevocations (P : Primitives H) (cfg : MembershipConfig) (exclude : Option NodeId)
    (draws : NodeId → Nat → Entropy) (s : RevocationGossip E H) : RevocationGossip E H × List Announcement :=
  let revocations := s.localNetworkRevocations cfg
  if revocations.isEmpty then (s, [])
  else s.peers.allPeers.foldl (Run.record (announceToPeer P cfg exclude revocations draws)) (s, [])

variable {P : Primitives H} {cfg : MembershipConfig} {s : RevocationGossip E H} {peerId : NodeId}
  {endpoint : Endpoint} {revocations : List MembershipRevocation} {draws : Nat → Entropy}

/-! ### Batches -/

theorem lt_of_mem_offsets {count offset : Nat} (h : offset ∈ offsets count) : offset < count := by
  simp only [offsets, MEMBERSHIP_REVOCATION_MAX_RECORDS, List.mem_map, List.mem_range] at h
  obtain ⟨k, hk, rfl⟩ := h
  omega

theorem offsets_of_pos {count : Nat} (h : 0 < count) : ∃ rest, offsets count = 0 :: rest := by
  have hsteps : (count + (MEMBERSHIP_REVOCATION_MAX_RECORDS - 1)) / MEMBERSHIP_REVOCATION_MAX_RECORDS
      = (count - 1) / MEMBERSHIP_REVOCATION_MAX_RECORDS + 1 := by
    simp only [MEMBERSHIP_REVOCATION_MAX_RECORDS]
    omega
  rw [offsets, hsteps, List.range_succ_eq_map, List.map_cons]
  exact ⟨_, rfl⟩

theorem length_batchAt (revocations : List MembershipRevocation) (offset : Nat) :
    (batchAt revocations offset).length = min MEMBERSHIP_REVOCATION_MAX_RECORDS (revocations.length - offset) := by
  rw [batchAt, List.length_take, List.length_drop]

theorem exists_batchAt {r : MembershipRevocation} (h : r ∈ revocations) :
    ∃ offset ∈ offsets revocations.length, r ∈ batchAt revocations offset := by
  obtain ⟨i, hi, rfl⟩ := List.mem_iff_getElem.mp h
  refine ⟨16 * (i / 16), ?_, ?_⟩
  · simp only [offsets, MEMBERSHIP_REVOCATION_MAX_RECORDS, List.mem_map, List.mem_range]
    exact ⟨i / 16, by omega, rfl⟩
  · rw [batchAt, List.mem_take_iff_getElem]
    refine ⟨i % 16, ?_, ?_⟩
    · simp only [MEMBERSHIP_REVOCATION_MAX_RECORDS, List.length_drop]
      omega
    · rw [List.getElem_drop]
      congr 1
      omega

def frameSize (cfg : MembershipConfig) (count : Nat) : Nat :=
  44 + sessionPaddedPlaintextSize (2 + MEMBERSHIP_REVOCATION_RECORD_SIZE * count) cfg.session.paddingBucketSize

theorem frameSize_mono (hbucket : isSupportedSessionPaddingBucket cfg.session.paddingBucketSize = true)
    {fewer count : Nat} (hfewer : fewer ≤ count) (hcount : count ≤ MEMBERSHIP_REVOCATION_MAX_RECORDS) :
    frameSize cfg fewer ≤ frameSize cfg count := by
  have hsize : 2 + MEMBERSHIP_REVOCATION_RECORD_SIZE * count ≤ SESSION_MAX_LOGICAL_PAYLOAD_SIZE := by
    simp only [MEMBERSHIP_REVOCATION_RECORD_SIZE, SESSION_MAX_LOGICAL_PAYLOAD_SIZE, SESSION_MAX_PAYLOAD_SIZE,
      SESSION_LENGTH_PREFIX_SIZE, MEMBERSHIP_REVOCATION_MAX_RECORDS] at *
    omega
  have hroom := (sessionPaddedPlaintextSize_bounds hbucket hsize).1
  refine Nat.add_le_add_left (sessionPaddedPlaintextSize_le hbucket
    (bucket_dvd_sessionPaddedPlaintextSize _ _) ?_) 44
  have := Nat.mul_le_mul_left MEMBERSHIP_REVOCATION_RECORD_SIZE hfewer
  omega

theorem serialize_batchAt (hverified : ∀ r ∈ revocations, verifyMembershipRevocation E r = true) {offset : Nat}
    (hoffset : offset < revocations.length) :
    ∃ payload, serializeMembershipRevocations E (batchAt revocations offset) = some payload := by
  refine ⟨_, serializeMembershipRevocations_eq_some_iff.mpr ⟨⟨?_, ?_, ?_⟩, rfl⟩⟩
  · apply List.ne_nil_of_length_pos
    rw [length_batchAt, MEMBERSHIP_REVOCATION_MAX_RECORDS]
    omega
  · rw [length_batchAt]
    exact Nat.min_le_left _ _
  · intro r hr
    exact hverified r (List.mem_of_mem_drop (List.mem_of_mem_take hr))

theorem length_frame {batch : List MembershipRevocation} {payload frame : List UInt8} {mgr : SessionManager H}
    {entropy : Entropy} (hpayload : serializeMembershipRevocations E batch = some payload)
    (hframe : (mgr.encryptMessage P cfg.session peerId TYPE_MEMBERSHIP_REVOCATION payload 0 entropy).2 = some frame) :
    frame.length = frameSize cfg batch.length := by
  rw [(SessionManager.length_encryptMessage hframe).2.2, length_serializeMembershipRevocations hpayload, frameSize]

/-! ### The loops -/

/-- The frame seals a message for the peer that has the revocation in it. -/
def Carries (E : SignatureScheme) (P : Primitives H) (cfg : MembershipConfig) (peerId : NodeId)
    (frame : List UInt8) (revocation : MembershipRevocation) : Prop :=
  ∃ (batch : List MembershipRevocation) (payload : List UInt8) (sessions : SessionManager H) (entropy : Entropy),
    revocation ∈ batch ∧ serializeMembershipRevocations E batch = some payload ∧
    (sessions.encryptMessage P cfg.session peerId TYPE_MEMBERSHIP_REVOCATION payload 0 entropy).2 = some frame

/-- The transport is handed a frame within the budget that carries the revocation to the peer. -/
def Hands (E : SignatureScheme) (P : Primitives H) (cfg : MembershipConfig) (peerId : NodeId) (endpoint : Endpoint)
    (budget : Nat) (announcements : List Announcement) (revocation : MembershipRevocation) : Prop :=
  ∃ frame queued, ⟨peerId, endpoint, some frame, queued⟩ ∈ announcements ∧ frame.length ≤ budget ∧
    Carries E P cfg peerId frame revocation

/-- Encryption succeeds, and the transport takes what is within the budget. -/
structure Unhindered (budget : Nat) (announcements : List Announcement) : Prop where
  encrypts : ∀ a ∈ announcements, a.frame.isSome = true
  room : ∀ a ∈ announcements, ∀ frame, a.frame = some frame → frame.length ≤ budget → a.queued = true

theorem Hands.mono {budget : Nat} {announcements announcements' : List Announcement} {r : MembershipRevocation}
    (h : Hands E P cfg peerId endpoint budget announcements r) (hsub : announcements ⊆ announcements') :
    Hands E P cfg peerId endpoint budget announcements' r := by
  obtain ⟨frame, queued, hmem, hcarries⟩ := h
  exact ⟨frame, queued, hsub hmem, hcarries⟩

theorem Unhindered.mono {budget : Nat} {announcements announcements' : List Announcement}
    (h : Unhindered budget announcements') (hsub : announcements ⊆ announcements') : Unhindered budget announcements :=
  ⟨fun a ha => h.encrypts a (hsub ha), fun a ha => h.room a (hsub ha)⟩

/-- What one turn of the loop over the batches does: encryption fails, the transport refuses the frame, or the
loop goes on. -/
theorem announceTo_cons {offset : Nat} {rest : List Nat} {payload : List UInt8}
    (h : serializeMembershipRevocations E (batchAt revocations offset) = some payload) :
    let sealed := s.sessions.encryptMessage P cfg.session peerId TYPE_MEMBERSHIP_REVOCATION payload 0 (draws offset)
    (sealed.2 = none ∧ s.announceTo P cfg peerId endpoint revocations draws (offset :: rest)
      = ({ s with sessions := sealed.1 }, [⟨peerId, endpoint, none, false⟩])) ∨
    ∃ frame, sealed.2 = some frame ∧
      let answer := s.transport.send frame endpoint
      let sent := { s with sessions := sealed.1, transport := answer.2 }
      (answer.1 = false ∧ s.announceTo P cfg peerId endpoint revocations draws (offset :: rest)
        = (sent, [⟨peerId, endpoint, some frame, false⟩])) ∨
      (answer.1 = true ∧ s.announceTo P cfg peerId endpoint revocations draws (offset :: rest)
        = ((sent.announceTo P cfg peerId endpoint revocations draws rest).1,
          ⟨peerId, endpoint, some frame, true⟩ ::
            (sent.announceTo P cfg peerId endpoint revocations draws rest).2)) := by
  dsimp only
  rw [announceTo, h]
  dsimp only
  cases s.sessions.encryptMessage P cfg.session peerId TYPE_MEMBERSHIP_REVOCATION payload 0 (draws offset) with
  | mk sessions frame =>
    cases frame with
    | none => exact Or.inl ⟨rfl, rfl⟩
    | some frame =>
      refine Or.inr ⟨frame, rfl, ?_⟩
      dsimp only
      cases (s.transport.send frame endpoint).1 with
      | false => exact Or.inl ⟨rfl, rfl⟩
      | true => exact Or.inr ⟨rfl, rfl⟩

/-- The second state has the budget of the first, and a session with the same peers. -/
structure Kept (s s' : RevocationGossip E H) : Prop where
  maxDatagramSize : s'.transport.maxDatagramSize = s.transport.maxDatagramSize
  sessions : ∀ p, (s'.sessions.findSessionLocked p).isSome = (s.sessions.findSessionLocked p).isSome

theorem Kept.refl (s : RevocationGossip E H) : Kept s s := ⟨rfl, fun _ => rfl⟩

theorem Kept.trans {s₁ s₂ s₃ : RevocationGossip E H} (h : Kept s₁ s₂) (h' : Kept s₂ s₃) : Kept s₁ s₃ :=
  ⟨h'.maxDatagramSize.trans h.maxDatagramSize, fun p => (h'.sessions p).trans (h.sessions p)⟩

theorem kept_announceTo (offsets : List Nat) :
    Kept s (s.announceTo P cfg peerId endpoint revocations draws offsets).1 := by
  induction offsets generalizing s with
  | nil => exact Kept.refl s
  | cons offset rest ih =>
    cases hserialize : serializeMembershipRevocations E (batchAt revocations offset) with
    | none =>
      rw [announceTo, hserialize]
      exact Kept.refl s
    | some payload =>
      have hsessions := SessionManager.findSessionLocked_encryptMessage P cfg.session s.sessions peerId
        TYPE_MEMBERSHIP_REVOCATION payload 0 (draws offset)
      rcases @announceTo_cons _ _ P cfg s peerId endpoint _ draws offset rest _ hserialize with
        ⟨-, heq⟩ | ⟨frame, -, ⟨-, heq⟩ | ⟨-, heq⟩⟩
      · rw [heq]
        exact ⟨rfl, hsessions⟩
      · rw [heq]
        exact ⟨Transport.maxDatagramSize_send .., hsessions⟩
      · rw [heq]
        refine Kept.trans ?_ ih
        exact ⟨Transport.maxDatagramSize_send .., hsessions⟩

variable {budget : Nat}

theorem announceTo_hands (hverified : ∀ r ∈ revocations, verifyMembershipRevocation E r = true) {offsets : List Nat}
    (hoffsets : ∀ offset ∈ offsets, offset < revocations.length)
    (hfits : ∀ offset ∈ offsets, frameSize cfg (batchAt revocations offset).length ≤ budget)
    (h : Unhindered budget (s.announceTo P cfg peerId endpoint revocations draws offsets).2) :
    ∀ offset ∈ offsets, ∀ r ∈ batchAt revocations offset,
      Hands E P cfg peerId endpoint budget (s.announceTo P cfg peerId endpoint revocations draws offsets).2 r := by
  induction offsets generalizing s with
  | nil => simp
  | cons first rest ih =>
    rw [List.forall_mem_cons] at hoffsets hfits
    obtain ⟨payload, hserialize⟩ := serialize_batchAt hverified hoffsets.1
    rcases @announceTo_cons _ _ P cfg s peerId endpoint _ draws first rest _ hserialize with
      ⟨-, heq⟩ | ⟨frame, hframe, ⟨-, heq⟩ | ⟨-, heq⟩⟩
    · rw [heq] at h
      exact absurd (h.encrypts _ List.mem_cons_self) (by simp)
    · rw [heq] at h
      have hlength := length_frame hserialize hframe
      exact absurd (h.room _ List.mem_cons_self frame rfl (hlength ▸ hfits.1)) (by simp)
    · rw [heq] at h ⊢
      rw [List.forall_mem_cons]
      have hlater := ih hoffsets.2 hfits.2 (h.mono (List.subset_cons_self _ _))
      constructor
      · intro r hr
        exact ⟨frame, true, List.mem_cons_self, length_frame hserialize hframe ▸ hfits.1, _, payload, s.sessions,
          draws first, hr, hserialize, hframe⟩
      · intro offset hoffset r hr
        exact (hlater offset hoffset r hr).mono (List.subset_cons_self _ _)

theorem announceTo_oversize {first : Nat} {rest : List Nat}
    (hverified : ∀ r ∈ revocations, verifyMembershipRevocation E r = true) (hfirst : first < revocations.length)
    (hsize : s.transport.maxDatagramSize < frameSize cfg (batchAt revocations first).length) {a : Announcement}
    (ha : a ∈ (s.announceTo P cfg peerId endpoint revocations draws (first :: rest)).2) {frame : List UInt8}
    (hframe : a.frame = some frame) : s.transport.maxDatagramSize < frame.length := by
  obtain ⟨payload, hserialize⟩ := serialize_batchAt hverified hfirst
  rcases @announceTo_cons _ _ P cfg s peerId endpoint _ draws first rest _ hserialize with
    ⟨-, heq⟩ | ⟨sealed, hsealed, ⟨-, heq⟩ | ⟨hsent, -⟩⟩
  · rw [heq, List.mem_singleton] at ha
    simp [ha] at hframe
  · rw [heq, List.mem_singleton] at ha
    obtain rfl : sealed = frame := by simpa [ha] using hframe
    rwa [length_frame hserialize hsealed]
  · have htaken := Transport.length_of_send hsent
    rw [length_frame hserialize hsealed] at htaken
    omega

/-! ### The announcement -/

variable {exclude : Option NodeId} {paddings : NodeId → Nat → Entropy}

theorem verified_localNetworkRevocations : ∀ r ∈ s.localNetworkRevocations cfg, verifyMembershipRevocation E r = true :=
  fun r hr => s.membershipRevocations.verified r (List.mem_of_mem_filter hr)

theorem kept_announceToPeer (peer : Peer) : Kept s (s.announceToPeer P cfg exclude revocations paddings peer).1 := by
  unfold announceToPeer
  split
  · exact Kept.refl s
  split
  · exact Kept.refl s
  split
  · exact Kept.refl s
  · exact kept_announceTo _

/-- The state after the turns of these peers. -/
def afterTurns (P : Primitives H) (cfg : MembershipConfig) (exclude : Option NodeId)
    (paddings : NodeId → Nat → Entropy) (s : RevocationGossip E H) (peers : List Peer) : RevocationGossip E H :=
  peers.foldl (fun s' peer => (s'.announceToPeer P cfg exclude (s.localNetworkRevocations cfg) paddings peer).1) s

theorem kept_afterTurns (peers : List Peer) : Kept s (s.afterTurns P cfg exclude paddings peers) :=
  Run.invariant (Kept s) (fun _ peer h => h.trans (kept_announceToPeer peer)) (Kept.refl s) peers

theorem mem_announcements_iff (hne : s.localNetworkRevocations cfg ≠ []) {a : Announcement} :
    a ∈ (s.announceMembershipRevocations P cfg exclude paddings).2 ↔
      ∃ front peer back, s.peers.allPeers = front ++ peer :: back ∧
        a ∈ ((s.afterTurns P cfg exclude paddings front).announceToPeer P cfg exclude
          (s.localNetworkRevocations cfg) paddings peer).2 := by
  rw [announceMembershipRevocations, if_neg (by simpa using hne)]
  exact Run.mem_foldl_record

theorem announcement_oversize (hne : s.localNetworkRevocations cfg ≠ []) (hsize : s.transport.maxDatagramSize
      < frameSize cfg (min MEMBERSHIP_REVOCATION_MAX_RECORDS (s.localNetworkRevocations cfg).length))
    {a : Announcement} (ha : a ∈ (s.announceMembershipRevocations P cfg exclude paddings).2) {frame : List UInt8}
    (hframe : a.frame = some frame) : s.transport.maxDatagramSize < frame.length := by
  obtain ⟨front, peer, back, -, ha⟩ := (mem_announcements_iff hne).mp ha
  have hkept := (@kept_afterTurns _ _ P cfg s exclude paddings front).maxDatagramSize
  have hpos := List.length_pos_of_ne_nil hne
  obtain ⟨rest, hoffsets⟩ := offsets_of_pos hpos
  unfold announceToPeer at ha
  split at ha
  · exact absurd ha List.not_mem_nil
  split at ha
  · exact absurd ha List.not_mem_nil
  split at ha
  · exact absurd ha List.not_mem_nil
  · rw [hoffsets] at ha
    rw [← hkept] at hsize ⊢
    refine announceTo_oversize verified_localNetworkRevocations hpos ?_ ha hframe
    rwa [length_batchAt, Nat.sub_zero]

/-- If the first batch fits, every revocation is handed to the transport for every peer. -/
theorem announcement_hands (hbucket : isSupportedSessionPaddingBucket cfg.session.paddingBucketSize = true)
    {peer : Peer} (hpeer : peer ∈ s.peers.allPeers) (hendpoint : peer.endpoint = some endpoint)
    (hsession : (s.sessions.findSessionLocked peer.nodeId).isSome = true) (hexclude : exclude ≠ some peer.nodeId)
    (hfits : frameSize cfg (min MEMBERSHIP_REVOCATION_MAX_RECORDS (s.localNetworkRevocations cfg).length) ≤ budget)
    (h : Unhindered budget (s.announceMembershipRevocations P cfg exclude paddings).2) {r : MembershipRevocation}
    (hr : r ∈ s.localNetworkRevocations cfg) :
    Hands E P cfg peer.nodeId endpoint budget (s.announceMembershipRevocations P cfg exclude paddings).2 r := by
  have hne := List.ne_nil_of_mem hr
  obtain ⟨front, back, hpeers⟩ := List.append_of_mem hpeer
  have hturn : ((s.afterTurns P cfg exclude paddings front).announceToPeer P cfg exclude
      (s.localNetworkRevocations cfg) paddings peer).2 ⊆
      (s.announceMembershipRevocations P cfg exclude paddings).2 := fun a ha =>
    (mem_announcements_iff hne).mpr ⟨front, peer, back, hpeers, ha⟩
  have hestablished : ((s.afterTurns P cfg exclude paddings front).sessions.findSessionLocked peer.nodeId).isNone
      = false := by
    rw [← Option.not_isSome, (kept_afterTurns front).sessions, hsession]
    rfl
  have hannounce : (s.afterTurns P cfg exclude paddings front).announceToPeer P cfg exclude
      (s.localNetworkRevocations cfg) paddings peer = (s.afterTurns P cfg exclude paddings front).announceTo P cfg
        peer.nodeId endpoint (s.localNetworkRevocations cfg) (paddings peer.nodeId)
        (offsets (s.localNetworkRevocations cfg).length) := by
    simp only [announceToPeer, if_neg hexclude, hendpoint, hestablished, Bool.false_eq_true, if_false]
  rw [hannounce] at hturn
  obtain ⟨offset, hoffset, hbatch⟩ := exists_batchAt hr
  refine (announceTo_hands verified_localNetworkRevocations (fun _ => lt_of_mem_offsets) ?_ (h.mono hturn) offset
    hoffset r hbatch).mono hturn
  intro offset _
  refine Nat.le_trans (frameSize_mono hbucket ?_ (Nat.min_le_left _ _)) hfits
  rw [length_batchAt]
  omega

theorem frameSize_zero_le (hcfg : cfg.accepted = true) : frameSize cfg 0 ≤ cfg.datagramBudget := by
  simp only [TunnelConfig.accepted, Bool.and_eq_true] at hcfg
  obtain ⟨mtu, hmtu⟩ := Option.isSome_iff_exists.mp hcfg.1.1
  obtain ⟨-, -, -, hbucket, hmin, hsum⟩ := safeOverlayMtu_eq_some_iff.mp hmtu
  have hpadded := @sessionPaddedPlaintextSize_le_add (2 + MEMBERSHIP_REVOCATION_RECORD_SIZE * 0) _ hbucket
  simp only [SESSION_LENGTH_PREFIX_SIZE] at hpadded
  simp only [frameSize, TunnelConfig.datagramBudget, OUTER_IPV4_UDP_OVERHEAD]
  omega

/-- Which announcements reach a peer: the transport is handed every revocation in frames within its budget,
exactly when the frame of the first batch is within it. -/
theorem revocations_announced_iff (hcfg : cfg.accepted = true)
    (hbudget : s.transport.maxDatagramSize = cfg.datagramBudget) {peer : Peer} (hpeer : peer ∈ s.peers.allPeers)
    (hendpoint : peer.endpoint = some endpoint) (hsession : (s.sessions.findSessionLocked peer.nodeId).isSome = true)
    (hexclude : exclude ≠ some peer.nodeId)
    (h : Unhindered cfg.datagramBudget (s.announceMembershipRevocations P cfg exclude paddings).2) :
    (∀ r ∈ s.localNetworkRevocations cfg, Hands E P cfg peer.nodeId endpoint cfg.datagramBudget
      (s.announceMembershipRevocations P cfg exclude paddings).2 r) ↔
      frameSize cfg (min MEMBERSHIP_REVOCATION_MAX_RECORDS (s.localNetworkRevocations cfg).length)
        ≤ cfg.datagramBudget := by
  constructor
  · intro hall
    by_cases hne : s.localNetworkRevocations cfg = []
    · rw [hne]
      exact frameSize_zero_le hcfg
    · by_contra hlarge
      obtain ⟨r, hr⟩ := List.exists_mem_of_ne_nil _ hne
      obtain ⟨frame, queued, hmem, hfits, -⟩ := hall r hr
      have hover := announcement_oversize hne (by omega) hmem rfl
      omega
  · intro hfits r hr
    exact announcement_hands (TunnelConfig.fits_direct hcfg).1 hpeer hendpoint hsession hexclude hfits h hr

/-- A scheme that takes every signature. -/
def sampleScheme : SignatureScheme := ⟨fun _ _ _ => true⟩

/-- Node 1 in network 3, with the default underlay. -/
def sampleMembership : MembershipConfig :=
  { sampleTunnel 1 with
    session := { SessionConfig.sample 1 with
      identity := { (SessionConfig.sample 1).identity with networkId := FixedBytes.copy 32 [3] } }
    trustedMembershipIssuer := some (FixedBytes.copy 32 [9]) }

def sampleRevocation (nonce : UInt8) : MembershipRevocation where
  networkId := FixedBytes.copy 32 [3]
  issuerSigningPublicKey := FixedBytes.copy 32 [9]
  enrollmentNonce := FixedBytes.copy 32 [nonce]
  signature := FixedBytes.copy 64 [1]

/-- Node 1 with this many revocations, and a session with node 2. -/
def sampleAnnouncer (count : Nat) : RevocationGossip sampleScheme ClearHandshake where
  peers := directDataPath.peers
  sessions := directDataPath.sessions
  transport := (({ sending := true } : Transport).setMaxDatagramSize sampleMembership.datagramBudget).getD {}
  membershipRevocations := (List.range count).foldl
    (fun store n => (store.add (sampleRevocation (UInt8.ofNat (n + 1)))).2) {}

def sampleAnnouncements (count : Nat) : List Announcement :=
  ((sampleAnnouncer count).announceMembershipRevocations clearPrimitives sampleMembership none
    fun _ _ => some fun _ => 0).2

theorem revocations_announced_sampleRevocation :
    Hands sampleScheme clearPrimitives sampleMembership (FixedBytes.copy 32 [2]) {} sampleMembership.datagramBudget
      (sampleAnnouncements 1) (sampleRevocation 1) := by
  have hsealed : ∀ a ∈ sampleAnnouncements 1, a.frame.isSome = true := by decide +kernel
  have hqueued : ∀ a ∈ sampleAnnouncements 1, a.queued = true := by decide +kernel
  have hiff := @revocations_announced_iff _ _ clearPrimitives sampleMembership (sampleAnnouncer 1) {} none
    (fun _ _ => some fun _ => 0) (by decide +kernel) (by decide +kernel) _
    (show directDataPath.peers.allPeers.head (by decide +kernel) ∈ _ from List.head_mem _) (by decide +kernel)
    (by decide +kernel) (by decide +kernel) ⟨hsealed, fun a ha _ _ _ => hqueued a ha⟩
  exact hiff.mpr (by decide +kernel) (sampleRevocation 1) (by decide +kernel)

/-- Eight revocations, a peer with endpoint and session, nothing in the way: the transport is handed one frame
that is too large for it, and the peer learns of no revocation. -/
theorem revocations_unannounced :
    sampleMembership.accepted = true ∧
    (sampleAnnouncer 8).transport.maxDatagramSize = sampleMembership.datagramBudget ∧
    (sampleAnnouncer 8).localNetworkRevocations sampleMembership
      = [1, 2, 3, 4, 5, 6, 7, 8].map sampleRevocation ∧
    (sampleAnnouncer 8).peers.allPeers.map (fun peer => (peer.nodeId, peer.endpoint))
      = [(FixedBytes.copy 32 [2], some {})] ∧
    ((sampleAnnouncer 8).sessions.findSessionLocked (FixedBytes.copy 32 [2])).isSome = true ∧
    Unhindered sampleMembership.datagramBudget (sampleAnnouncements 8) ∧
    ∀ r, ¬Hands sampleScheme clearPrimitives sampleMembership (FixedBytes.copy 32 [2]) {}
      sampleMembership.datagramBudget (sampleAnnouncements 8) r := by
  have hsizes : ∀ a ∈ sampleAnnouncements 8, a.frame.map List.length = some 1516 := by decide +kernel
  have hover : ∀ a ∈ sampleAnnouncements 8, ∀ frame, a.frame = some frame →
      ¬frame.length ≤ sampleMembership.datagramBudget := by
    intro a ha frame hframe
    have hsize := hsizes a ha
    rw [hframe, Option.map_some, Option.some_inj] at hsize
    rw [hsize]
    decide
  refine ⟨by decide +kernel, by decide +kernel, by decide +kernel, by decide +kernel, by decide +kernel, ⟨?_, ?_⟩, ?_⟩
  · intro a ha
    have hsize := hsizes a ha
    cases hframe : a.frame with
    | none => simp [hframe] at hsize
    | some frame => rfl
  · intro a ha frame hframe hfits
    exact absurd hfits (hover a ha frame hframe)
  · rintro r ⟨frame, queued, hmem, hfits, -⟩
    exact hover _ hmem frame rfl hfits

end RevocationGossip

end Aegis
