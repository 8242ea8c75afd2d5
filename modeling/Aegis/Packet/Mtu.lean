import Aegis.Packet.Header
import Aegis.Packet.Onion

/-!
# The MTU contract

`packet/mtu.hpp`: the bytes an inner packet gains on the wire, by the depth of its route, and the largest
inner packet that fits the underlay at a depth. The session frame around a payload is 44 bytes and the
payload padded to the bucket, so a payload of `n` bytes costs at most `n + session_frame_overhead`; along a
relayed route the payload is the source id, a content byte and one onion layer of 60 bytes per hop.
-/

namespace Aegis

def DIRECT_ROUTE_DEPTH : Nat := 1
def DEFAULT_UNDERLAY_MTU : Nat := 1500
def MINIMUM_IPV4_MTU : Nat := 576
def MAXIMUM_IPV4_MTU : Nat := 65535
def OUTER_IPV4_UDP_OVERHEAD : Nat := 20 + 8
def NODE_ID_SIZE : Nat := 32
def RELAY_CONTENT_TYPE_SIZE : Nat := 1
def RELAY_SOURCE_OVERHEAD : Nat := NODE_ID_SIZE + RELAY_CONTENT_TYPE_SIZE

def sessionMaxPaddingForBucket (bucketSize : Nat) : Nat :=
  if isSupportedSessionPaddingBucket bucketSize then bucketSize - 1 else 0

def sessionFrameOverhead (bucketSize : Nat) : Nat :=
  PACKET_HEADER_SIZE + 12 + 16 + SESSION_LENGTH_PREFIX_SIZE + sessionMaxPaddingForBucket bucketSize

def wireOverheadForRouteDepth (routeDepth paddingBucketSize : Nat) : Option Nat :=
  if routeDepth < DIRECT_ROUTE_DEPTH ∨ ONION_MAX_HOPS < routeDepth ∨
      isSupportedSessionPaddingBucket paddingBucketSize = false then none
  else
    let overhead := OUTER_IPV4_UDP_OVERHEAD + sessionFrameOverhead paddingBucketSize
    if DIRECT_ROUTE_DEPTH < routeDepth then
      some (overhead + (RELAY_SOURCE_OVERHEAD + routeDepth * ONION_OVERHEAD))
    else some overhead

def safeOverlayMtu (underlayMtu routeDepth paddingBucketSize : Nat) : Option Nat :=
  if MAXIMUM_IPV4_MTU < underlayMtu then none
  else
    match wireOverheadForRouteDepth routeDepth paddingBucketSize with
    | none => none
    | some overhead =>
      if underlayMtu < overhead + MINIMUM_IPV4_MTU then none else some (underlayMtu - overhead)

/-- What a packet gains before it is framed, at a route depth. -/
def relayOverhead (routeDepth : Nat) : Nat :=
  if DIRECT_ROUTE_DEPTH < routeDepth then RELAY_SOURCE_OVERHEAD + routeDepth * ONION_OVERHEAD else 0

/-! ### Sizes -/

theorem wireOverheadForRouteDepth_isSome_iff (routeDepth paddingBucketSize : Nat) :
    (wireOverheadForRouteDepth routeDepth paddingBucketSize).isSome ↔
      1 ≤ routeDepth ∧ routeDepth ≤ ONION_MAX_HOPS ∧ isSupportedSessionPaddingBucket paddingBucketSize = true := by
  unfold wireOverheadForRouteDepth
  split_ifs with hbad hrelay
  · simp only [DIRECT_ROUTE_DEPTH, Option.isSome_none, Bool.false_eq_true, false_iff] at hbad ⊢
    rintro ⟨hlow, hhigh, hbucket⟩
    rcases hbad with h | h | h
    · omega
    · omega
    · rw [hbucket] at h
      cases h
  all_goals
    simp only [DIRECT_ROUTE_DEPTH, not_or, not_lt, Bool.not_eq_false] at hbad
    simpa using hbad

theorem wireOverheadForRouteDepth_eq {routeDepth paddingBucketSize overhead : Nat}
    (h : wireOverheadForRouteDepth routeDepth paddingBucketSize = some overhead) :
    overhead = 75 + paddingBucketSize + relayOverhead routeDepth := by
  have hsome : (wireOverheadForRouteDepth routeDepth paddingBucketSize).isSome := by simp [h]
  obtain ⟨-, -, hbucket⟩ := (wireOverheadForRouteDepth_isSome_iff _ _).mp hsome
  have hpadding : sessionMaxPaddingForBucket paddingBucketSize = paddingBucketSize - 1 := by
    simp [sessionMaxPaddingForBucket, hbucket]
  have hpos : 0 < paddingBucketSize := by
    rcases supportedBucket_cases hbucket with rfl | rfl | rfl | rfl <;> decide
  unfold wireOverheadForRouteDepth at h
  unfold relayOverhead
  split_ifs at h ⊢ with hbad hrelay
  all_goals
    obtain rfl := Option.some.inj h
    simp only [sessionFrameOverhead, hpadding, OUTER_IPV4_UDP_OVERHEAD, PACKET_HEADER_SIZE,
      SESSION_LENGTH_PREFIX_SIZE]
    omega

/-- What the contract says about a depth: the largest packet and its overhead fill the underlay. -/
theorem safeOverlayMtu_eq_some_iff {underlayMtu routeDepth paddingBucketSize mtu : Nat} :
    safeOverlayMtu underlayMtu routeDepth paddingBucketSize = some mtu ↔
      underlayMtu ≤ 65535 ∧ 1 ≤ routeDepth ∧ routeDepth ≤ ONION_MAX_HOPS ∧
      isSupportedSessionPaddingBucket paddingBucketSize = true ∧ 576 ≤ mtu ∧
      mtu + (75 + paddingBucketSize + relayOverhead routeDepth) = underlayMtu := by
  unfold safeOverlayMtu
  cases hoverhead : wireOverheadForRouteDepth routeDepth paddingBucketSize with
  | none =>
    have hnone : ¬(wireOverheadForRouteDepth routeDepth paddingBucketSize).isSome := by simp [hoverhead]
    rw [wireOverheadForRouteDepth_isSome_iff] at hnone
    refine iff_of_false (by split_ifs <;> simp) ?_
    rintro ⟨-, hlow, hhigh, hbucket, -⟩
    exact hnone ⟨hlow, hhigh, hbucket⟩
  | some overhead =>
    have hsome : (wireOverheadForRouteDepth routeDepth paddingBucketSize).isSome := by simp [hoverhead]
    obtain ⟨hlow, hhigh, hbucket⟩ := (wireOverheadForRouteDepth_isSome_iff _ _).mp hsome
    have heq := wireOverheadForRouteDepth_eq hoverhead
    simp only [MAXIMUM_IPV4_MTU, MINIMUM_IPV4_MTU, hlow, hhigh, hbucket, true_and]
    split_ifs <;> grind

theorem sessionPaddedPlaintextSize_le {size bucketSize limit : Nat}
    (hbucket : isSupportedSessionPaddingBucket bucketSize = true) (hlimit : bucketSize ∣ limit)
    (hsize : size + SESSION_LENGTH_PREFIX_SIZE ≤ limit) : sessionPaddedPlaintextSize size bucketSize ≤ limit := by
  obtain ⟨k, rfl⟩ := hlimit
  simp only [sessionPaddedPlaintextSize, hbucket, if_true, SESSION_LENGTH_PREFIX_SIZE] at hsize ⊢
  rcases supportedBucket_cases hbucket with rfl | rfl | rfl | rfl <;> omega

theorem sessionPaddedPlaintextSize_le_add {size bucketSize : Nat}
    (hbucket : isSupportedSessionPaddingBucket bucketSize = true) :
    sessionPaddedPlaintextSize size bucketSize ≤ size + SESSION_LENGTH_PREFIX_SIZE + (bucketSize - 1) := by
  simp only [sessionPaddedPlaintextSize, hbucket, if_true]
  have := Nat.div_mul_le_self (size + SESSION_LENGTH_PREFIX_SIZE + bucketSize - 1) bucketSize
  rcases supportedBucket_cases hbucket with rfl | rfl | rfl | rfl <;> omega

theorem bucket_dvd_sessionPaddedPlaintextSize (size bucketSize : Nat) :
    bucketSize ∣ sessionPaddedPlaintextSize size bucketSize := by
  unfold sessionPaddedPlaintextSize
  split_ifs
  · exact Nat.dvd_mul_left _ _
  · exact Nat.dvd_zero _

end Aegis
