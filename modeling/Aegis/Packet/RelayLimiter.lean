import Aegis.Lib.SortedMap
import Aegis.Lib.TokenBucket
import Aegis.Wire.Bytes
import Mathlib.Data.Rat.Floor

/-!
# The relay's quotas

`RelayForwardLimiter` of `packet/relay_limiter.cpp`: a packet that is to be passed on must be covered by the
bucket of the peer it came from and by the global one, in packets and in bytes. Token counts are rational
numbers where the source has floating point; the clock ticks in milliseconds. The table of peers is bounded,
and a peer that has been idle long enough may be forgotten.

A bucket is compared by its level, what it holds at a time without use. Every call that is refused leaves all
levels as they were, also when it forgets idle peers: a peer that is forgotten had the time to fill its bucket,
and a peer that is not in the table has a full one.
-/

namespace Aegis

def RELAY_QUOTA_MAX_PEERS : Nat := 256

structure RelayQuotaConfig where
  perPeerPacketsPerSecond : ℚ := 200
  perPeerPacketBurst : Nat := 400
  perPeerBytesPerSecond : ℚ := 512 * 1024
  perPeerByteBurst : Nat := 1024 * 1024
  globalPacketsPerSecond : ℚ := 1000
  globalPacketBurst : Nat := 2000
  globalBytesPerSecond : ℚ := 4 * 1024 * 1024
  globalByteBurst : Nat := 8 * 1024 * 1024
  maxPeers : Nat := RELAY_QUOTA_MAX_PEERS
  idleTtl : Time := 300000
deriving DecidableEq

inductive RelayQuotaResult where
  | allowed
  | invalid
  | peerLimited
  | globalLimited
  | capacityLimited
deriving DecidableEq

structure RelayQuotaStats where
  admittedPackets : Nat := 0
  admittedBytes : Nat := 0
  peerDrops : Nat := 0
  globalDrops : Nat := 0
  capacityDrops : Nat := 0
deriving DecidableEq

/-- The rates and bursts of one scope, as `refill` gets them. -/
structure BucketLimits where
  packetsPerSecond : ℚ
  packetBurst : ℚ
  bytesPerSecond : ℚ
  byteBurst : ℚ

structure RelayBucket where
  packetTokens : ℚ := 0
  byteTokens : ℚ := 0
  updatedAt : Time := 0
deriving DecidableEq

structure PeerBucket where
  bucket : RelayBucket
  lastSeen : Time
deriving DecidableEq

structure RelayForwardLimiter where
  config : RelayQuotaConfig
  global : RelayBucket
  peers : SortedMap NodeId PeerBucket := ∅
  stats : RelayQuotaStats := {}
deriving DecidableEq

namespace RelayQuotaConfig

/-- Every rational number is finite, so only the signs are checked. -/
def valid (config : RelayQuotaConfig) : Bool :=
  0 < config.perPeerPacketsPerSecond && 0 < config.perPeerPacketBurst && 0 < config.perPeerBytesPerSecond &&
    0 < config.perPeerByteBurst && 0 < config.globalPacketsPerSecond && 0 < config.globalPacketBurst &&
    0 < config.globalBytesPerSecond && 0 < config.globalByteBurst && 0 < config.maxPeers && 0 < config.idleTtl

def perPeer (config : RelayQuotaConfig) : BucketLimits :=
  ⟨config.perPeerPacketsPerSecond, config.perPeerPacketBurst, config.perPeerBytesPerSecond, config.perPeerByteBurst⟩

def global (config : RelayQuotaConfig) : BucketLimits :=
  ⟨config.globalPacketsPerSecond, config.globalPacketBurst, config.globalBytesPerSecond, config.globalByteBurst⟩

end RelayQuotaConfig

/-- A clock reading or duration in seconds. -/
def seconds (time : Time) : ℚ := time / 1000

namespace RelayBucket

/-- `make_bucket`: a full one. -/
def make (limits : BucketLimits) (now : Time) : RelayBucket := ⟨limits.packetBurst, limits.byteBurst, now⟩

def refill (bucket : RelayBucket) (now : Time) (limits : BucketLimits) : RelayBucket :=
  if now ≤ bucket.updatedAt then bucket
  else
    let elapsed := seconds (now - bucket.updatedAt)
    { packetTokens := min limits.packetBurst (bucket.packetTokens + elapsed * limits.packetsPerSecond)
      byteTokens := min limits.byteBurst (bucket.byteTokens + elapsed * limits.bytesPerSecond)
      updatedAt := now }

/-- There are tokens for a packet of this size. -/
def covers (bucket : RelayBucket) (byteCost : ℚ) : Bool :=
  !(bucket.packetTokens < 1 || bucket.byteTokens < byteCost)

def charge (bucket : RelayBucket) (byteCost : ℚ) : RelayBucket :=
  { bucket with packetTokens := bucket.packetTokens - 1, byteTokens := bucket.byteTokens - byteCost }

end RelayBucket

namespace RelayForwardLimiter

/-- The constructor, and `reset`. -/
def create (config : RelayQuotaConfig) (now : Time) : RelayForwardLimiter :=
  { config, global := RelayBucket.make config.global now }

def purgeIdle (limiter : RelayForwardLimiter) (now : Time) : RelayForwardLimiter :=
  { limiter with
    peers := limiter.peers.filter fun _ peer =>
      !(peer.lastSeen ≤ now && limiter.config.idleTtl ≤ now - peer.lastSeen) }

/-- The sender's bucket, brought up to date or created if the table has room or gets it by forgetting idle
peers. -/
def track (limiter : RelayForwardLimiter) (now : Time) (sender : NodeId) :
    RelayForwardLimiter × Option RelayBucket :=
  match limiter.peers.find? sender with
  | some peer =>
    let bucket := peer.bucket.refill now limiter.config.perPeer
    ({ limiter with peers := limiter.peers.insert sender ⟨bucket, now⟩ }, some bucket)
  | none =>
    let limiter := if limiter.config.maxPeers ≤ limiter.peers.size then limiter.purgeIdle now else limiter
    if limiter.config.maxPeers ≤ limiter.peers.size then (limiter, none)
    else
      let bucket := RelayBucket.make limiter.config.perPeer now
      ({ limiter with peers := limiter.peers.insert sender ⟨bucket, now⟩ }, some bucket)

def dropGlobal (limiter : RelayForwardLimiter) : RelayForwardLimiter :=
  { limiter with stats := { limiter.stats with globalDrops := limiter.stats.globalDrops + 1 } }

def dropPeer (limiter : RelayForwardLimiter) : RelayForwardLimiter :=
  { limiter with stats := { limiter.stats with peerDrops := limiter.stats.peerDrops + 1 } }

def dropCapacity (limiter : RelayForwardLimiter) : RelayForwardLimiter :=
  { limiter with stats := { limiter.stats with capacityDrops := limiter.stats.capacityDrops + 1 } }

/-- Charge both buckets. -/
def grant (limiter : RelayForwardLimiter) (now : Time) (sender : NodeId) (bucket : RelayBucket)
    (forwardedBytes : Nat) : RelayForwardLimiter :=
  { limiter with
    global := limiter.global.charge forwardedBytes
    peers := limiter.peers.insert sender ⟨bucket.charge forwardedBytes, now⟩
    stats := { limiter.stats with
      admittedPackets := limiter.stats.admittedPackets + 1
      admittedBytes := limiter.stats.admittedBytes + forwardedBytes } }

def allow (limiter : RelayForwardLimiter) (now : Time) (authenticatedSender : NodeId) (forwardedBytes : Nat) :
    RelayForwardLimiter × RelayQuotaResult :=
  if !limiter.config.valid || forwardedBytes = 0 then (limiter, .invalid)
  else if limiter.config.globalByteBurst < forwardedBytes then (limiter.dropGlobal, .globalLimited)
  else if limiter.config.perPeerByteBurst < forwardedBytes then (limiter.dropPeer, .peerLimited)
  else
    let limiter := { limiter with global := limiter.global.refill now limiter.config.global }
    if !limiter.global.covers forwardedBytes then (limiter.dropGlobal, .globalLimited)
    else
      match limiter.track now authenticatedSender with
      | (limiter, none) => (limiter.dropCapacity, .capacityLimited)
      | (limiter, some bucket) =>
        if !bucket.covers forwardedBytes then (limiter.dropPeer, .peerLimited)
        else (limiter.grant now authenticatedSender bucket forwardedBytes, .allowed)

end RelayForwardLimiter

/-! ### Levels -/

inductive Resource where
  | packets
  | bytes

namespace Resource

def cost : Resource → Nat → ℚ
  | .packets, _ => 1
  | .bytes, forwardedBytes => forwardedBytes

theorem cost_nonneg (resource : Resource) (forwardedBytes : Nat) : 0 ≤ resource.cost forwardedBytes := by
  cases resource with
  | packets => exact zero_le_one
  | bytes => exact Nat.cast_nonneg forwardedBytes

end Resource

def BucketLimits.rate (limits : BucketLimits) : Resource → ℚ
  | .packets => limits.packetsPerSecond
  | .bytes => limits.bytesPerSecond

def BucketLimits.burst (limits : BucketLimits) : Resource → ℚ
  | .packets => limits.packetBurst
  | .bytes => limits.byteBurst

def BucketLimits.Positive (limits : BucketLimits) : Prop :=
  ∀ resource, 0 < limits.rate resource ∧ 0 < limits.burst resource

theorem RelayQuotaConfig.positive {config : RelayQuotaConfig} (h : config.valid = true) :
    config.perPeer.Positive ∧ config.global.Positive := by
  simp only [valid, Bool.and_eq_true, decide_eq_true_eq] at h
  refine ⟨fun resource => ?_, fun resource => ?_⟩
  · cases resource <;> simp [perPeer, BucketLimits.rate, BucketLimits.burst, h]
  · cases resource <;> simp [global, BucketLimits.rate, BucketLimits.burst, h]

theorem seconds_sub (a b : Time) : seconds (a - b) = seconds a - seconds b := by
  simp only [seconds, Int.cast_sub]
  ring

theorem seconds_le {a b : Time} : seconds a ≤ seconds b ↔ a ≤ b := by
  simp only [seconds]
  rw [div_le_div_iff_of_pos_right (by norm_num), Int.cast_le]

namespace RelayBucket

def tokens (bucket : RelayBucket) : Resource → ℚ
  | .packets => bucket.packetTokens
  | .bytes => bucket.byteTokens

/-- What the bucket holds at a time if it is not used until then. -/
def level (bucket : RelayBucket) (limits : BucketLimits) (resource : Resource) (t : ℚ) : ℚ :=
  TokenBucket.level (limits.rate resource) (limits.burst resource) (bucket.tokens resource)
    (t - seconds bucket.updatedAt)

/-- The tokens are within their limits, and were so at the latest at a time. -/
structure Sound (bucket : RelayBucket) (limits : BucketLimits) (t : ℚ) : Prop where
  tokens : ∀ resource, 0 ≤ bucket.tokens resource ∧ bucket.tokens resource ≤ limits.burst resource
  updatedAt : seconds bucket.updatedAt ≤ t

variable {bucket : RelayBucket} {limits : BucketLimits} {now : Time} {t t' : ℚ} {resource : Resource}

theorem Sound.mono (h : bucket.Sound limits t) (hle : t ≤ t') : bucket.Sound limits t' :=
  ⟨h.tokens, h.updatedAt.trans hle⟩

theorem sound_make (hlimits : limits.Positive) (now : Time) : (make limits now).Sound limits (seconds now) := by
  refine ⟨fun resource => ?_, le_refl _⟩
  have hburst := (hlimits resource).2.le
  cases resource with
  | packets => exact ⟨hburst, le_refl _⟩
  | bytes => exact ⟨hburst, le_refl _⟩

theorem level_make (hlimits : limits.Positive) (ht : seconds now ≤ t) (resource : Resource) :
    (make limits now).level limits resource t = limits.burst resource := by
  have htokens : (make limits now).tokens resource = limits.burst resource := by
    cases resource with
    | packets => rfl
    | bytes => rfl
  refine TokenBucket.level_of_full ?_
  rw [htokens]
  exact le_add_of_nonneg_right (mul_nonneg (sub_nonneg.mpr ht) (hlimits resource).1.le)

theorem level_nonneg (h : bucket.Sound limits t) (hlimits : limits.Positive) (resource : Resource) :
    0 ≤ bucket.level limits resource t :=
  TokenBucket.level_nonneg (hlimits resource).1.le (hlimits resource).2.le (h.tokens resource).1
    (sub_nonneg.mpr h.updatedAt)

theorem level_le_burst (bucket : RelayBucket) (limits : BucketLimits) (resource : Resource) (t : ℚ) :
    bucket.level limits resource t ≤ limits.burst resource := TokenBucket.level_le_burst _ _ _ _

theorem level_le_add (bucket : RelayBucket) (hlimits : limits.Positive) (hle : t ≤ t') (resource : Resource) :
    bucket.level limits resource t' ≤ bucket.level limits resource t + limits.rate resource * (t' - t) := by
  have hgrow : TokenBucket.level _ (limits.burst resource) (bucket.tokens resource)
      (t - seconds bucket.updatedAt + (t' - t)) ≤ _ :=
    TokenBucket.level_add_le (hlimits resource).1.le (sub_nonneg.mpr hle)
  rwa [sub_add_sub_cancel'] at hgrow

theorem level_updatedAt (h : bucket.Sound limits t) (resource : Resource) :
    bucket.level limits resource (seconds bucket.updatedAt) = bucket.tokens resource := by
  rw [level, sub_self, TokenBucket.level_zero (h.tokens resource).2]

theorem refill_spec (h : bucket.Sound limits (seconds now)) (hlimits : limits.Positive) :
    (bucket.refill now limits).updatedAt = now ∧ (bucket.refill now limits).Sound limits (seconds now) ∧
      ∀ resource t, seconds now ≤ t →
        (bucket.refill now limits).level limits resource t = bucket.level limits resource t := by
  unfold refill
  split_ifs with hnow
  · have heq : bucket.updatedAt = now := le_antisymm (seconds_le.mp h.updatedAt) hnow
    exact ⟨heq, h, fun _ _ _ => rfl⟩
  · have htokens : ∀ resource, (RelayBucket.mk
        (min limits.packetBurst (bucket.packetTokens + seconds (now - bucket.updatedAt) * limits.packetsPerSecond))
        (min limits.byteBurst (bucket.byteTokens + seconds (now - bucket.updatedAt) * limits.bytesPerSecond))
        now).tokens resource = bucket.level limits resource (seconds now) := by
      intro resource
      rw [level, ← seconds_sub]
      cases resource with
      | packets => rfl
      | bytes => rfl
    refine ⟨rfl, ⟨fun resource => ?_, le_refl _⟩, fun resource t ht => ?_⟩
    · rw [htokens]
      exact ⟨level_nonneg h hlimits resource, level_le_burst _ _ _ _⟩
    · rw [level, htokens, level, level, TokenBucket.level_level (hlimits resource).1.le (sub_nonneg.mpr ht),
        sub_add_sub_cancel']

theorem tokens_charge (bucket : RelayBucket) (forwardedBytes : Nat) (resource : Resource) :
    (bucket.charge forwardedBytes).tokens resource = bucket.tokens resource - resource.cost forwardedBytes := by
  cases resource with
  | packets => rfl
  | bytes => rfl

theorem cost_le_of_covers {forwardedBytes : Nat} (h : bucket.covers forwardedBytes = true) (resource : Resource) :
    resource.cost forwardedBytes ≤ bucket.tokens resource := by
  simp only [covers, Bool.not_eq_true', Bool.or_eq_false_iff, decide_eq_false_iff_not, not_lt] at h
  cases resource with
  | packets => exact h.1
  | bytes => exact h.2

theorem charge_spec {forwardedBytes : Nat} (h : bucket.Sound limits (seconds bucket.updatedAt))
    (hcovers : bucket.covers forwardedBytes = true) :
    (bucket.charge forwardedBytes).Sound limits (seconds bucket.updatedAt) ∧
      ∀ resource, (bucket.charge forwardedBytes).level limits resource (seconds bucket.updatedAt)
        + resource.cost forwardedBytes = bucket.level limits resource (seconds bucket.updatedAt) := by
  have hsound : (bucket.charge forwardedBytes).Sound limits (seconds bucket.updatedAt) := by
    refine ⟨fun resource => ?_, le_refl _⟩
    rw [tokens_charge]
    have hcost := cost_le_of_covers hcovers resource
    have hnonneg := resource.cost_nonneg forwardedBytes
    have hmax := (h.tokens resource).2
    exact ⟨by linarith, by linarith⟩
  refine ⟨hsound, fun resource => ?_⟩
  have hpaid := level_updatedAt hsound resource
  rw [level_updatedAt h]
  exact (congrArg (· + resource.cost forwardedBytes) hpaid).trans (by rw [tokens_charge, sub_add_cancel])

end RelayBucket

end Aegis
