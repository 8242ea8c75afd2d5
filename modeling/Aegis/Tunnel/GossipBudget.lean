import Aegis.Peer.GossipBatches
import Aegis.Tunnel.RevocationGossip

/-!
# The budget of a peer table

`Tunnel::send_peer_table` gives `make_gossip_batches` what a session frame leaves of the transport's datagrams. The
entry of a peer is cut by the number of its prefixes and admitted by the size of the pieces: a piece of 16 prefixes
under a path of `h` hops takes `614 + 32 * h` bytes, while an accepted configuration may leave no more than 576. A
peer with that many prefixes is then left out of every table, although each of its prefixes would fit.
-/

namespace Aegis

/-- What `send_peer_table` allows the payload of one frame. -/
def TunnelConfig.maxPayloadBytes (cfg : TunnelConfig) (maxDatagramSize : Nat) : Nat :=
  if sessionFrameOverhead cfg.session.paddingBucketSize < maxDatagramSize then
    maxDatagramSize - sessionFrameOverhead cfg.session.paddingBucketSize
  else 0

theorem TunnelConfig.maxPayloadBytes_of_accepted {cfg : TunnelConfig} (h : cfg.accepted = true) :
    cfg.maxPayloadBytes cfg.datagramBudget + (75 + cfg.session.paddingBucketSize) = cfg.underlayMtu ∧
      576 + relayOverhead cfg.maxRelayDepth ≤ cfg.maxPayloadBytes cfg.datagramBudget := by
  simp only [accepted, Bool.and_eq_true] at h
  obtain ⟨mtu, hmtu⟩ := Option.isSome_iff_exists.mp h.1.1
  obtain ⟨-, -, -, hbucket, hmin, hsum⟩ := safeOverlayMtu_eq_some_iff.mp hmtu
  have hpos : 0 < cfg.session.paddingBucketSize := by
    rcases supportedBucket_cases hbucket with h | h | h | h <;> omega
  have hoverhead : sessionFrameOverhead cfg.session.paddingBucketSize = 47 + cfg.session.paddingBucketSize := by
    simp only [sessionFrameOverhead, sessionMaxPaddingForBucket, hbucket, if_true, PACKET_HEADER_SIZE,
      SESSION_LENGTH_PREFIX_SIZE]
    omega
  have hbudget : cfg.datagramBudget + 28 = cfg.underlayMtu := by
    simp only [datagramBudget, OUTER_IPV4_UDP_OVERHEAD]
    omega
  rw [maxPayloadBytes, hoverhead, if_pos (by omega)]
  omega

/-- Which updates a peer table carries. With records and a path within the limits of the format, it is those whose
largest chunk fits: the batches then hold the update's chunks in a row, with all its prefixes, and complete its
revision; any other update is left out as a whole. Every such update is carried from a route depth of five on. -/
theorem gossip_update_included_iff (cfg : TunnelConfig) (hcfg : cfg.accepted = true) (updates : List GossipUpdate)
    (update : GossipUpdate) (hmem : update ∈ updates) (hpath : update.peer.path.length ≤ 8)
    (hrecords : ∀ record ∈ update.peer.prefixes, record.encodable = true) :
    let batches := makeGossipBatches updates (cfg.maxPayloadBytes cfg.datagramBudget)
    let needed := 145 + cfg.session.paddingBucketSize + 32 * update.peer.path.length
      + 34 * min 16 update.peer.prefixes.length
    (needed ≤ cfg.underlayMtu →
      (∃ before after, batches.flatMap (·.peers) = before ++ update.peer.chunks ++ after) ∧
      (∀ chunk ∈ update.peer.chunks, chunk = { update.peer with prefixes := chunk.prefixes }) ∧
      update.peer.chunks.flatMap (·.prefixes) = update.peer.prefixes ∧
      (update.peer.nodeId, update.revision) ∈ batches.flatMap (·.completedRevisions)) ∧
    (cfg.underlayMtu < needed →
      batches = makeGossipBatches (updates.filter fun other => other ≠ update)
        (cfg.maxPayloadBytes cfg.datagramBudget)) ∧
    (5 ≤ cfg.maxRelayDepth → needed ≤ cfg.underlayMtu) := by
  intro batches needed
  obtain ⟨hunderlay, hroom⟩ := TunnelConfig.maxPayloadBytes_of_accepted hcfg
  have hiff := @GossipUpdate.included_iff (cfg.maxPayloadBytes cfg.datagramBudget) update hpath hrecords
  refine ⟨fun hfits => ?_, fun hlarge => ?_, fun hdepth => ?_⟩
  · obtain ⟨hrow, hcompleted⟩ := includes_of_included hmem (hiff.mpr (by omega))
    exact ⟨hrow, fun chunk hchunk => (AdvertisedPeer.mem_chunks hchunk).1, update.peer.flatMap_prefixes_chunks,
      hcompleted⟩
  · apply makeGossipBatches_of_excluded
    rw [Bool.eq_false_iff]
    intro hincluded
    have := hiff.mp hincluded
    omega
  · have hdeep : relayOverhead cfg.maxRelayDepth = 33 + cfg.maxRelayDepth * 60 := by
      rw [relayOverhead, if_pos (show DIRECT_ROUTE_DEPTH < cfg.maxRelayDepth by
        simp only [DIRECT_ROUTE_DEPTH]
        omega)]
      rfl
    omega

/-- An entry with sixteen prefixes behind one hop. -/
def sixteenPrefixes : GossipUpdate where
  peer := {
    nodeId := FixedBytes.copy 32 [3]
    publicKey := FixedBytes.copy 32 [3]
    path := [FixedBytes.copy 32 [3]]
    prefixes := (List.range 16).map fun i =>
      { network := .fromIpv4 (0x0a000000 + 256 * UInt32.ofNat i), prefixLength := 24 } }
  revision := 1

/-- A configuration without relays on an underlay of 715 bytes. -/
def smallTunnel : TunnelConfig := { sampleTunnel 1 with underlayMtu := 715, maxRelayDepth := 1 }

/-- Each prefix fits on its own, and the update is in no batch. -/
theorem gossip_update_starved :
    let budget := smallTunnel.maxPayloadBytes smallTunnel.datagramBudget
    smallTunnel.accepted = true ∧ budget = 576 ∧ sixteenPrefixes.peer.path.length = 1 ∧
    (∀ record ∈ sixteenPrefixes.peer.prefixes, record.encodable = true ∧
      fitsPayload budget [{ sixteenPrefixes.peer with prefixes := [record] }] = true) ∧
    makeGossipBatches [sixteenPrefixes] budget = [] := by
  decide +kernel

theorem gossip_update_included_default :
    (sixteenPrefixes.peer.nodeId, sixteenPrefixes.revision)
      ∈ (makeGossipBatches [sixteenPrefixes]
          ((sampleTunnel 1).maxPayloadBytes (sampleTunnel 1).datagramBudget)).flatMap (·.completedRevisions) :=
  ((gossip_update_included_iff (sampleTunnel 1) (by decide) [sixteenPrefixes] sixteenPrefixes List.mem_cons_self
    (by decide) (by decide +kernel)).1 (by decide)).2.2.2

end Aegis
