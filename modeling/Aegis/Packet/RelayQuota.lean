import Aegis.Lib.Run
import Aegis.Packet.RelayLimiter
import Mathlib.Data.List.Chain

/-!
# What the relay admits

A call of the limiter either refuses and leaves every level alone, or admits and takes the packet's cost from
the global level and from the sender's (`allow_spec`). The global level and the level of any one sender are
therefore meters in the sense of `TokenBucket.Metered`, for packets and for bytes, and the bound on what an
interval of time admits is the library's.
-/

namespace Aegis

/-- One call of `allow`, with the time the clock shows. -/
structure RelayCall where
  now : Time
  sender : NodeId
  forwardedBytes : Nat

namespace RelayForwardLimiter

/-- What may still be admitted at a time, by the global bucket. -/
def globalLevel (limiter : RelayForwardLimiter) (resource : Resource) (t : ℚ) : ℚ :=
  limiter.global.level limiter.config.global resource t

/-- What may still be admitted at a time, by the bucket of a sender: a full one if there is none. -/
def senderLevel (limiter : RelayForwardLimiter) (sender : NodeId) (resource : Resource) (t : ℚ) : ℚ :=
  match limiter.peers.find? sender with
  | some peer => peer.bucket.level limiter.config.perPeer resource t
  | none => limiter.config.perPeer.burst resource

/-- A peer that has been idle long enough to be forgotten has a full bucket. -/
def FillsWhenIdle (config : RelayQuotaConfig) : Prop :=
  ∀ resource, config.perPeer.burst resource ≤ config.perPeer.rate resource * seconds config.idleTtl

/-- The limiter is in order as of a time. -/
structure Sound (config : RelayQuotaConfig) (limiter : RelayForwardLimiter) (t : ℚ) : Prop where
  config_eq : limiter.config = config
  global : limiter.global.Sound config.global t
  peers : ∀ sender peer, limiter.peers.find? sender = some peer →
    peer.bucket.Sound config.perPeer t ∧ peer.lastSeen = peer.bucket.updatedAt
  capacity : limiter.peers.size ≤ config.maxPeers

/-- Nothing is taken from any bucket. -/
structure SameLevels (t₀ : ℚ) (limiter limiter' : RelayForwardLimiter) : Prop where
  global : ∀ resource t, t₀ ≤ t → limiter'.globalLevel resource t = limiter.globalLevel resource t
  sender : ∀ sender resource t, t₀ ≤ t →
    limiter'.senderLevel sender resource t = limiter.senderLevel sender resource t

variable {config : RelayQuotaConfig} {limiter limiter' limiter'' : RelayForwardLimiter} {now : Time} {t t' t₀ : ℚ}
  {sender : NodeId} {forwardedBytes : Nat}

theorem SameLevels.refl (t₀ : ℚ) (limiter : RelayForwardLimiter) : SameLevels t₀ limiter limiter :=
  ⟨fun _ _ _ => rfl, fun _ _ _ _ => rfl⟩

theorem SameLevels.trans (h : SameLevels t₀ limiter limiter') (h' : SameLevels t₀ limiter' limiter'') :
    SameLevels t₀ limiter limiter'' :=
  ⟨fun resource t ht => (h'.global resource t ht).trans (h.global resource t ht),
    fun sender resource t ht => (h'.sender sender resource t ht).trans (h.sender sender resource t ht)⟩

theorem Sound.mono (h : Sound config limiter t) (hle : t ≤ t') : Sound config limiter t' :=
  ⟨h.config_eq, h.global.mono hle,
    fun sender peer hpeer => ⟨(h.peers sender peer hpeer).1.mono hle, (h.peers sender peer hpeer).2⟩, h.capacity⟩

theorem sound_create (hvalid : config.valid = true) (now : Time) : Sound config (create config now) (seconds now) :=
  ⟨rfl, RelayBucket.sound_make (RelayQuotaConfig.positive hvalid).2 now, by simp [create], Nat.zero_le _⟩

/-! ### One call -/

theorem stats_spec {start : RelayForwardLimiter} (h : Sound config limiter t) (hsame : SameLevels t start limiter)
    (stats : RelayQuotaStats) : Sound config { limiter with stats } t ∧ SameLevels t start { limiter with stats } :=
  ⟨⟨h.config_eq, h.global, h.peers, h.capacity⟩, hsame.global, hsame.sender⟩

theorem refillGlobal_spec (hvalid : config.valid = true) (h : Sound config limiter (seconds now)) :
    Sound config { limiter with global := limiter.global.refill now limiter.config.global } (seconds now) ∧
      SameLevels (seconds now) limiter
        { limiter with global := limiter.global.refill now limiter.config.global } := by
  obtain rfl := h.config_eq
  obtain ⟨-, hsound, hlevel⟩ := RelayBucket.refill_spec h.global (RelayQuotaConfig.positive hvalid).2
  exact ⟨⟨rfl, hsound, h.peers, h.capacity⟩, hlevel, fun _ _ _ _ => rfl⟩

theorem insert_spec {bucket : RelayBucket} (h : Sound config limiter (seconds now))
    (hbucket : bucket.Sound config.perPeer (seconds now)) (hupdated : bucket.updatedAt = now)
    (hroom : limiter.peers.contains sender = true ∨ limiter.peers.size < config.maxPeers)
    (hlevel : ∀ resource t, seconds now ≤ t →
      bucket.level config.perPeer resource t = limiter.senderLevel sender resource t) :
    Sound config { limiter with peers := limiter.peers.insert sender ⟨bucket, now⟩ } (seconds now) ∧
      SameLevels (seconds now) limiter { limiter with peers := limiter.peers.insert sender ⟨bucket, now⟩ } := by
  refine ⟨⟨h.config_eq, h.global, fun other peer hpeer => ?_, ?_⟩, fun _ _ _ => rfl, fun other resource t ht => ?_⟩
  · rcases SortedMap.find?_insert_eq_some_iff.mp hpeer with ⟨-, rfl⟩ | ⟨-, hpeer⟩
    · exact ⟨hbucket, hupdated.symm⟩
    · exact h.peers other peer hpeer
  · rcases hroom with hcontains | hlt
    · exact (SortedMap.size_insert_of_contains _ hcontains).trans h.capacity
    · exact (SortedMap.size_insert_le _ _ _).trans hlt
  · by_cases hother : other = sender
    · subst hother
      rw [← hlevel resource t ht]
      simp only [senderLevel, SortedMap.find?_insert, if_true, h.config_eq]
    · simp only [senderLevel, SortedMap.find?_insert, if_neg hother]

theorem grant_spec {bucket : RelayBucket} (h : Sound config limiter (seconds now))
    (hglobal : limiter.global.updatedAt = now) (hglobalCovers : limiter.global.covers forwardedBytes = true)
    (hfound : limiter.peers.find? sender = some ⟨bucket, now⟩) (hcovers : bucket.covers forwardedBytes = true) :
    Sound config (limiter.grant now sender bucket forwardedBytes) (seconds now) ∧ ∀ resource,
      (limiter.grant now sender bucket forwardedBytes).globalLevel resource (seconds now)
        + resource.cost forwardedBytes = limiter.globalLevel resource (seconds now) ∧
      ∀ other, (limiter.grant now sender bucket forwardedBytes).senderLevel other resource (seconds now)
        + (if other = sender then resource.cost forwardedBytes else 0)
          = limiter.senderLevel other resource (seconds now) := by
  obtain rfl := h.config_eq
  obtain ⟨hbucket, hseen⟩ := h.peers sender _ hfound
  dsimp only at hbucket hseen
  have hglobalSound := h.global
  rw [← hglobal] at hglobalSound
  obtain ⟨hpaid, hlevel⟩ := RelayBucket.charge_spec hglobalSound hglobalCovers
  rw [hseen] at hbucket
  obtain ⟨hpaid', hlevel'⟩ := RelayBucket.charge_spec hbucket hcovers
  rw [hglobal] at hpaid hlevel
  rw [← hseen] at hpaid' hlevel'
  refine ⟨⟨rfl, hpaid, fun other peer hpeer => ?_, ?_⟩, fun resource => ⟨hlevel resource, fun other => ?_⟩⟩
  · rcases SortedMap.find?_insert_eq_some_iff.mp hpeer with ⟨-, rfl⟩ | ⟨-, hpeer⟩
    · exact ⟨hpaid', hseen⟩
    · exact h.peers other peer hpeer
  · exact (SortedMap.size_insert_of_contains _ (SortedMap.contains_of_find? hfound)).trans h.capacity
  · by_cases hother : other = sender
    · subst hother
      simpa [senderLevel, grant, hfound] using hlevel' resource
    · simp [senderLevel, grant, hother]

section

variable (hvalid : config.valid = true) (hfills : FillsWhenIdle config)
include hvalid hfills

theorem purgeIdle_spec (h : Sound config limiter (seconds now)) :
    Sound config (limiter.purgeIdle now) (seconds now) ∧
      SameLevels (seconds now) limiter (limiter.purgeIdle now) := by
  obtain rfl := h.config_eq
  refine ⟨⟨rfl, h.global, fun sender peer hpeer => ?_, ?_⟩, fun _ _ _ => rfl, fun sender resource t ht => ?_⟩
  · exact h.peers sender peer (SortedMap.find?_filter_eq_some_iff.mp hpeer).1
  · exact (SortedMap.size_filter_le _ _).trans h.capacity
  · simp only [senderLevel, purgeIdle, SortedMap.find?_filter]
    cases hpeer : limiter.peers.find? sender with
    | none => rfl
    | some peer =>
      obtain ⟨hsound, hseen⟩ := h.peers sender peer hpeer
      cases hidle : decide (peer.lastSeen ≤ now) && decide (limiter.config.idleTtl ≤ now - peer.lastSeen) with
      | false => simp [Option.filter, hidle]
      | true =>
        -- idle since `lastSeen`, which is when the bucket was last brought up to date
        simp only [Bool.and_eq_true, decide_eq_true_eq] at hidle
        have hidleFor : seconds limiter.config.idleTtl ≤ t - seconds peer.bucket.updatedAt := by
          rw [← hseen]
          have hlong := seconds_le.mpr hidle.2
          rw [seconds_sub] at hlong
          linarith
        have hfull : peer.bucket.level limiter.config.perPeer resource t = limiter.config.perPeer.burst resource := by
          refine TokenBucket.level_of_full ((hfills resource).trans ?_)
          have hrate := ((RelayQuotaConfig.positive hvalid).1 resource).1
          have hflow := mul_le_mul_of_nonneg_left hidleFor hrate.le
          have hnonneg := (hsound.tokens resource).1
          linarith
        simp [Option.filter, hidle, hfull]

theorem makeRoom_spec (h : Sound config limiter (seconds now)) (hpeer : limiter.peers.find? sender = none) :
    ∃ purged : RelayForwardLimiter,
      (if limiter.config.maxPeers ≤ limiter.peers.size then limiter.purgeIdle now else limiter) = purged ∧
      Sound config purged (seconds now) ∧ SameLevels (seconds now) limiter purged ∧
      purged.global = limiter.global ∧ purged.peers.find? sender = none := by
  split_ifs
  · obtain ⟨hsound, hsame⟩ := purgeIdle_spec hvalid hfills h
    exact ⟨_, rfl, hsound, hsame, rfl, by simp [purgeIdle, hpeer]⟩
  · exact ⟨_, rfl, h, .refl _ _, rfl, hpeer⟩

theorem track_spec (h : Sound config limiter (seconds now)) (sender : NodeId) :
    Sound config (limiter.track now sender).1 (seconds now) ∧
      SameLevels (seconds now) limiter (limiter.track now sender).1 ∧
      (limiter.track now sender).1.global = limiter.global ∧
      ∀ bucket, (limiter.track now sender).2 = some bucket → bucket.updatedAt = now ∧
        (limiter.track now sender).1.peers.find? sender = some ⟨bucket, now⟩ := by
  obtain rfl := h.config_eq
  have hpositive := (RelayQuotaConfig.positive hvalid).1
  unfold track
  cases hpeer : limiter.peers.find? sender with
  | some peer =>
    obtain ⟨hupdated, hsound, hlevel⟩ := RelayBucket.refill_spec (h.peers sender peer hpeer).1 hpositive
    obtain ⟨hnext, hsame⟩ := insert_spec h hsound hupdated (Or.inl (SortedMap.contains_of_find? hpeer)) (by
      intro resource t ht
      rw [hlevel resource t ht]
      simp [senderLevel, hpeer])
    refine ⟨hnext, hsame, rfl, fun bucket hbucket => ?_⟩
    obtain rfl := Option.some.inj hbucket
    exact ⟨hupdated, by simp⟩
  | none =>
    obtain ⟨purged, heq, hsound, hsame, hglobal, hnone⟩ := makeRoom_spec hvalid hfills h hpeer
    simp only [heq]
    by_cases hfull : purged.config.maxPeers ≤ purged.peers.size
    · rw [if_pos hfull]
      exact ⟨hsound, hsame, hglobal, fun bucket hbucket => by simp at hbucket⟩
    · rw [if_neg hfull]
      have hbucket : (RelayBucket.make purged.config.perPeer now).Sound limiter.config.perPeer (seconds now) := by
        rw [hsound.config_eq]
        exact RelayBucket.sound_make hpositive now
      have hroom : purged.peers.size < limiter.config.maxPeers := hsound.config_eq ▸ Nat.not_le.mp hfull
      obtain ⟨hnext, hsame'⟩ := @insert_spec _ _ _ sender _ hsound hbucket rfl (Or.inr hroom) (by
        intro resource t ht
        simp only [senderLevel, hnone, hsound.config_eq]
        exact RelayBucket.level_make hpositive ht resource)
      refine ⟨hnext, hsame.trans hsame', hglobal, fun bucket hbucket => ?_⟩
      obtain rfl := Option.some.inj hbucket
      exact ⟨rfl, by simp⟩

/-- A call that is refused takes nothing from any bucket; one that admits takes the packet's cost from the
global bucket and from the sender's. -/
theorem allow_spec (h : Sound config limiter (seconds now)) (sender : NodeId) (forwardedBytes : Nat) :
    Sound config (limiter.allow now sender forwardedBytes).1 (seconds now) ∧
      (((limiter.allow now sender forwardedBytes).2 ≠ .allowed ∧
          SameLevels (seconds now) limiter (limiter.allow now sender forwardedBytes).1) ∨
        ((limiter.allow now sender forwardedBytes).2 = .allowed ∧ ∀ resource,
          (limiter.allow now sender forwardedBytes).1.globalLevel resource (seconds now)
            + resource.cost forwardedBytes = limiter.globalLevel resource (seconds now) ∧
          ∀ other, (limiter.allow now sender forwardedBytes).1.senderLevel other resource (seconds now)
            + (if other = sender then resource.cost forwardedBytes else 0)
              = limiter.senderLevel other resource (seconds now))) := by
  unfold allow
  by_cases hinvalid : (!limiter.config.valid || decide (forwardedBytes = 0)) = true
  · rw [if_pos hinvalid]
    exact ⟨h, Or.inl ⟨by simp, .refl _ _⟩⟩
  rw [if_neg hinvalid]
  by_cases hlarge : limiter.config.globalByteBurst < forwardedBytes
  · rw [if_pos hlarge]
    obtain ⟨hcounted, hlevels⟩ := stats_spec h (.refl _ _) _
    exact ⟨hcounted, Or.inl ⟨by simp, hlevels⟩⟩
  rw [if_neg hlarge]
  by_cases hlarge' : limiter.config.perPeerByteBurst < forwardedBytes
  · rw [if_pos hlarge']
    obtain ⟨hcounted, hlevels⟩ := stats_spec h (.refl _ _) _
    exact ⟨hcounted, Or.inl ⟨by simp, hlevels⟩⟩
  rw [if_neg hlarge']
  obtain ⟨hsound, hsame⟩ := refillGlobal_spec hvalid h
  have hupdated : (limiter.global.refill now limiter.config.global).updatedAt = now := by
    rw [h.config_eq]
    exact (RelayBucket.refill_spec h.global (RelayQuotaConfig.positive hvalid).2).1
  dsimp only
  set refilled : RelayForwardLimiter := { limiter with global := limiter.global.refill now limiter.config.global }
  cases hglobal : refilled.global.covers forwardedBytes with
  | false =>
    obtain ⟨hcounted, hlevels⟩ := stats_spec hsound hsame _
    exact ⟨hcounted, Or.inl ⟨by simp, hlevels⟩⟩
  | true =>
    obtain ⟨htracked, hsame', hkept, hfound⟩ := track_spec hvalid hfills hsound sender
    cases htrack : refilled.track now sender with
    | mk tracked found =>
      rw [htrack] at htracked hsame' hkept hfound
      have hlevels := hsame.trans hsame'
      cases found with
      | none =>
        obtain ⟨hcounted, hlevels⟩ := stats_spec htracked hlevels _
        exact ⟨hcounted, Or.inl ⟨by simp, hlevels⟩⟩
      | some bucket =>
        obtain ⟨hbucket, hstored⟩ := hfound bucket rfl
        cases hcovers : bucket.covers forwardedBytes with
        | false =>
          simp only [Bool.not_true, Bool.false_eq_true, if_false, hcovers, Bool.not_false, if_true]
          obtain ⟨hcounted, hlevels⟩ := stats_spec htracked hlevels _
          exact ⟨hcounted, Or.inl ⟨by simp, hlevels⟩⟩
        | true =>
          simp only [Bool.not_true, Bool.false_eq_true, if_false, hcovers]
          have hpay := grant_spec htracked (hkept ▸ hupdated) (hkept ▸ hglobal) hstored hcovers
          refine ⟨hpay.1, Or.inr ⟨trivial, fun resource => ⟨?_, fun other => ?_⟩⟩⟩
          · rw [(hpay.2 resource).1, hlevels.global resource _ (le_refl _)]
          · rw [(hpay.2 resource).2 other, hlevels.sender other resource _ (le_refl _)]

end

/-! ### Runs -/

def call (limiter : RelayForwardLimiter) (c : RelayCall) : RelayForwardLimiter × RelayQuotaResult :=
  limiter.allow c.now c.sender c.forwardedBytes

def run (limiter : RelayForwardLimiter) (calls : List RelayCall) : RelayForwardLimiter :=
  calls.foldl (fun limiter c => (limiter.call c).1) limiter

/-- The calls of a run with their answers. -/
def answers : RelayForwardLimiter → List RelayCall → List (RelayCall × RelayQuotaResult)
  | _, [] => []
  | limiter, c :: rest => (c, (limiter.call c).2) :: answers (limiter.call c).1 rest

/-- The packets or bytes of the admitted calls for which `counts` holds. -/
def admitted (resource : Resource) (counts : RelayCall → Bool) (trace : List (RelayCall × RelayQuotaResult)) : ℚ :=
  ((trace.filter fun e => e.2 = .allowed && counts e.1).map fun e => resource.cost e.1.forwardedBytes).sum

def ClockOrdered (start : Time) (calls : List RelayCall) : Prop :=
  List.IsChain (· ≤ ·) (start :: calls.map (·.now))

/-- What a call costs a scope. -/
def callCost (resource : Resource) (inScope : RelayCall → Bool) (limiter : RelayForwardLimiter) (c : RelayCall) : ℚ :=
  if (limiter.call c).2 = .allowed && inScope c then resource.cost c.forwardedBytes else 0

theorem admitted_eq_spent (resource : Resource) (inScope within : RelayCall → Bool) (limiter : RelayForwardLimiter)
    (calls : List RelayCall) :
    admitted resource (fun c => inScope c && within c) (limiter.answers calls)
      = TokenBucket.spent (fun limiter c => (limiter.call c).1) (callCost resource inScope) within limiter calls := by
  induction calls generalizing limiter with
  | nil => rfl
  | cons c rest ih =>
    rw [TokenBucket.spent, ← ih, callCost, answers, admitted, List.filter_cons]
    by_cases hallowed : (limiter.call c).2 = .allowed
    · cases inScope c with
      | true =>
        cases within c with
        | true => simp [hallowed, admitted]
        | false => simp [admitted]
      | false => simp [admitted]
    · simp [hallowed, admitted]

theorem ClockOrdered.seconds {start : Time} {calls : List RelayCall} (h : ClockOrdered start calls) :
    List.IsChain (· ≤ ·) (Aegis.seconds start :: calls.map fun c => Aegis.seconds c.now) := by
  have hmap : List.IsChain (· ≤ ·) ((start :: calls.map (·.now)).map Aegis.seconds) :=
    List.isChain_map_of_isChain Aegis.seconds (fun _ _ hle => seconds_le.mpr hle) h
  simpa [List.map_map, Function.comp_def] using hmap

section

variable (hvalid : config.valid = true) (hfills : FillsWhenIdle config)
include hvalid hfills

theorem Sound.call {c : RelayCall} (h : Sound config limiter t) (hle : t ≤ seconds c.now) :
    Sound config (limiter.call c).1 (seconds c.now) :=
  (allow_spec hvalid hfills (h.mono hle) c.sender c.forwardedBytes).1

theorem metered_global (resource : Resource) :
    TokenBucket.Metered (fun limiter c => (RelayForwardLimiter.call limiter c).1) (fun c => seconds c.now)
      (callCost resource fun _ => true) (Sound config) (fun limiter t => limiter.globalLevel resource t)
      (config.global.rate resource) (config.global.burst resource) where
  rate_nonneg := ((RelayQuotaConfig.positive hvalid).2 resource).1.le
  inv := fun h hle => h.call hvalid hfills hle
  nonneg := fun h => by
    rw [globalLevel, h.config_eq]
    exact RelayBucket.level_nonneg h.global (RelayQuotaConfig.positive hvalid).2 resource
  le_burst := fun h => by
    rw [globalLevel, h.config_eq]
    exact RelayBucket.level_le_burst _ _ _ _
  grows := fun h hle => ⟨h.mono hle, by
    simp only [globalLevel, h.config_eq]
    exact RelayBucket.level_le_add _ (RelayQuotaConfig.positive hvalid).2 hle resource⟩
  pays := fun {limiter c} h => by
    obtain ⟨-, ⟨hrefused, hsame⟩ | ⟨hallowed, hpaid⟩⟩ := allow_spec hvalid hfills h c.sender c.forwardedBytes
    · have hcost : callCost resource (fun _ => true) limiter c = 0 := by simp [callCost, call, hrefused]
      rw [hcost, add_zero]
      exact (hsame.global resource _ (le_refl _)).le
    · have hcost : callCost resource (fun _ => true) limiter c = resource.cost c.forwardedBytes := by
        simp [callCost, call, hallowed]
      rw [hcost]
      exact (hpaid resource).1.le

theorem metered_sender (sender : NodeId) (resource : Resource) :
    TokenBucket.Metered (fun limiter c => (RelayForwardLimiter.call limiter c).1) (fun c => seconds c.now)
      (callCost resource fun c => c.sender = sender) (Sound config)
      (fun limiter t => limiter.senderLevel sender resource t)
      (config.perPeer.rate resource) (config.perPeer.burst resource) := by
  have hpositive := (RelayQuotaConfig.positive hvalid).1
  refine ⟨(hpositive resource).1.le, fun h hle => h.call hvalid hfills hle, ?_, ?_, ?_, ?_⟩
  · intro limiter now h
    unfold senderLevel
    rw [h.config_eq]
    cases hpeer : limiter.peers.find? sender with
    | some peer => exact RelayBucket.level_nonneg (h.peers sender peer hpeer).1 hpositive resource
    | none => exact (hpositive resource).2.le
  · intro limiter now h
    unfold senderLevel
    rw [h.config_eq]
    cases limiter.peers.find? sender with
    | some peer => exact RelayBucket.level_le_burst _ _ _ _
    | none => exact le_refl _
  · intro limiter now t h hle
    refine ⟨h.mono hle, ?_⟩
    unfold senderLevel
    rw [h.config_eq]
    cases limiter.peers.find? sender with
    | some peer => exact RelayBucket.level_le_add _ hpositive hle resource
    | none => exact le_add_of_nonneg_right (mul_nonneg (hpositive resource).1.le (sub_nonneg.mpr hle))
  · intro limiter c h
    obtain ⟨-, ⟨hrefused, hsame⟩ | ⟨hallowed, hpaid⟩⟩ := allow_spec hvalid hfills h c.sender c.forwardedBytes
    · have hcost : callCost resource (fun c => c.sender = sender) limiter c = 0 := by
        simp [callCost, call, hrefused]
      rw [hcost, add_zero]
      exact (hsame.sender sender resource _ (le_refl _)).le
    · have hcost : callCost resource (fun c => c.sender = sender) limiter c
          = if sender = c.sender then resource.cost c.forwardedBytes else 0 := by
        simp [callCost, call, hallowed, eq_comm]
      rw [hcost]
      exact ((hpaid resource).2 sender).le

theorem Sound.run {start : Time} {calls : List RelayCall} (h : Sound config limiter (seconds start))
    (hclock : ClockOrdered start calls) :
    ∃ last, (last = start ∨ ∃ c ∈ calls, last = c.now) ∧ Sound config (limiter.run calls) (seconds last) := by
  induction calls generalizing limiter start with
  | nil => exact ⟨start, Or.inl rfl, h⟩
  | cons c rest ih =>
    rw [ClockOrdered, List.map_cons, List.isChain_cons_cons] at hclock
    obtain ⟨last, hlast, hsound⟩ := ih (h.call hvalid hfills (seconds_le.mpr hclock.1)) hclock.2
    refine ⟨last, Or.inr ?_, hsound⟩
    rcases hlast with rfl | ⟨c', hc', rfl⟩
    · exact ⟨c, List.mem_cons_self, rfl⟩
    · exact ⟨c', List.mem_cons_of_mem _ hc', rfl⟩

end

/-- In any interval of time at most a burst and what flows in meanwhile is admitted, for one sender and in all;
a call that is refused takes nothing from any bucket; and the table of senders stays within its limit. -/
theorem admits_within_quota (config : RelayQuotaConfig) (hvalid : config.valid = true)
    (hfills : FillsWhenIdle config) (start : Time) (calls : List RelayCall) (hclock : ClockOrdered start calls) :
    (∀ (resource : Resource) (t₁ t₂ : Time), t₁ ≤ t₂ →
      (∀ sender, admitted resource (fun c => c.sender = sender && (t₁ ≤ c.now && c.now ≤ t₂))
          ((create config start).answers calls)
        ≤ config.perPeer.burst resource + config.perPeer.rate resource * seconds (t₂ - t₁)) ∧
      admitted resource (fun c => t₁ ≤ c.now && c.now ≤ t₂) ((create config start).answers calls)
        ≤ config.global.burst resource + config.global.rate resource * seconds (t₂ - t₁)) ∧
    (∀ c : RelayCall, start ≤ c.now → (∀ c' ∈ calls, c'.now ≤ c.now) →
      (((create config start).run calls).call c).2 ≠ .allowed →
      ∀ (resource : Resource) (t : Time), c.now ≤ t →
        (((create config start).run calls).call c).1.globalLevel resource (seconds t)
          = ((create config start).run calls).globalLevel resource (seconds t) ∧
        ∀ sender, (((create config start).run calls).call c).1.senderLevel sender resource (seconds t)
          = ((create config start).run calls).senderLevel sender resource (seconds t)) ∧
    ((create config start).run calls).peers.size ≤ config.maxPeers := by
  have hcreate := sound_create hvalid start
  obtain ⟨last, hlast, hsound⟩ := hcreate.run hvalid hfills hclock
  refine ⟨fun resource t₁ t₂ hle => ⟨fun sender => ?_, ?_⟩, fun c hstart hcalls hrefused resource t ht => ?_,
    hsound.capacity⟩
  · have hspent := (metered_sender hvalid hfills sender resource).spent_le hcreate (seconds_le.mpr hle) hclock.seconds
    rw [← admitted_eq_spent, ← seconds_sub] at hspent
    simpa only [seconds_le] using hspent
  · have hspent := (metered_global hvalid hfills resource).spent_le hcreate (seconds_le.mpr hle) hclock.seconds
    rw [← admitted_eq_spent, ← seconds_sub] at hspent
    simpa only [seconds_le, Bool.true_and] using hspent
  · have hnow : seconds last ≤ seconds c.now := by
      rw [seconds_le]
      rcases hlast with rfl | ⟨c', hc', rfl⟩
      · exact hstart
      · exact hcalls c' hc'
    obtain ⟨-, ⟨-, hsame⟩ | ⟨hallowed, -⟩⟩ := allow_spec hvalid hfills (hsound.mono hnow) c.sender c.forwardedBytes
    · have hseconds := seconds_le.mpr ht
      exact ⟨hsame.global resource _ hseconds, fun sender => hsame.sender sender resource _ hseconds⟩
    · exact absurd hallowed hrefused

/-- Two packets a second with a burst of two: a sender that asks every half second is within its quota. -/
theorem admits_within_quota_two_per_second :
    let config : RelayQuotaConfig := {
      perPeerPacketsPerSecond := 2, perPeerPacketBurst := 2, perPeerBytesPerSecond := 100, perPeerByteBurst := 100,
      globalPacketsPerSecond := 10, globalPacketBurst := 3, globalBytesPerSecond := 100, globalByteBurst := 150,
      maxPeers := 2, idleTtl := 1000 }
    let calls : List RelayCall := [⟨0, default, 60⟩, ⟨0, default, 41⟩, ⟨500, default, 40⟩, ⟨500, default, 50⟩]
    ((create config 0).answers calls).map (·.2) = [.allowed, .peerLimited, .allowed, .allowed] ∧
      admitted .packets (fun c => c.sender = default && (0 ≤ c.now && c.now ≤ 500)) ((create config 0).answers calls)
        ≤ 2 + 2 * seconds (500 - 0) := by
  intro config calls
  refine ⟨by decide +kernel, ?_⟩
  refine ((admits_within_quota config (by decide +kernel) ?_ 0 calls (by simp [ClockOrdered, calls])).1
    .packets 0 500 (by decide)).1 default
  intro resource
  cases resource with
  | packets => norm_num [config, RelayQuotaConfig.perPeer, BucketLimits.burst, BucketLimits.rate, seconds]
  | bytes => norm_num [config, RelayQuotaConfig.perPeer, BucketLimits.burst, BucketLimits.rate, seconds]

end RelayForwardLimiter

end Aegis
