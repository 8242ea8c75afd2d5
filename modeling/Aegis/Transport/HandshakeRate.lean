import Aegis.Lib.FixedWindow
import Aegis.Lib.SortedMap
import Aegis.Net.Address
import Mathlib.Algebra.Order.Group.Int
import Mathlib.Data.List.Chain
import Mathlib.Data.Prod.Lex

/-!
# The rate of handshakes

`HandshakeRateLimiter` of `transport/handshake_rate_limiter.cpp`, which stands before any work on a handshake
that is not authenticated yet. There is one window of time for all sources together and one for each source:
the address of an IPv4 source, the first eight bytes of an IPv6 one, and never the port. The window of a source
is forgotten when it has expired and opened again by the next handshake. Each of these counters is a
`FixedWindow`, so an interval as long as a window holds at most twice the limit.
-/

namespace Aegis

structure HandshakeRateLimitConfig where
  perSourceLimit : Nat := 8
  globalLimit : Nat := 64
  maxSources : Nat := 1024
  window : Time := 1000
deriving DecidableEq

/-- `SourceKey`: the family and the bytes that tell sources apart. -/
structure SourceKey where
  family : IPAddressFamily
  bytes : FixedBytes 16
deriving DecidableEq

/-- Keys are ordered by family, IPv4 first, and then by bytes. -/
instance instLinearOrderSourceKey : LinearOrder SourceKey :=
  LinearOrder.lift' (fun key => toLex (decide (key.family = .ipv6), key.bytes)) fun a b h => by
    obtain ⟨hfamily, hbytes⟩ := Prod.mk.inj (toLex.injective h)
    obtain ⟨family, bytes⟩ := a
    obtain ⟨family', bytes'⟩ := b
    cases family <;> cases family' <;> simp_all

structure SourceBucket where
  windowStart : Time
  count : Nat
deriving DecidableEq

structure HandshakeRateLimiter where
  config : HandshakeRateLimitConfig
  globalWindowStart : Time
  globalCount : Nat := 0
  sources : SortedMap SourceKey SourceBucket := ∅
deriving DecidableEq

namespace HandshakeRateLimiter

/-- A window that is not positive is taken to be a millisecond. -/
def create (config : HandshakeRateLimitConfig) (now : Time) : HandshakeRateLimiter where
  config := if config.window ≤ 0 then { config with window := 1 } else config
  globalWindowStart := now

def expired (limiter : HandshakeRateLimiter) (start now : Time) : Bool :=
  now < start || limiter.config.window ≤ now - start

def resetGlobalIfExpired (limiter : HandshakeRateLimiter) (now : Time) : HandshakeRateLimiter :=
  if !limiter.expired limiter.globalWindowStart now then limiter
  else { limiter with globalWindowStart := now, globalCount := 0 }

def purgeExpiredSources (limiter : HandshakeRateLimiter) (now : Time) : HandshakeRateLimiter :=
  { limiter with sources := limiter.sources.filter fun _ bucket => !limiter.expired bucket.windowStart now }

def sourceKey (source : Endpoint) : SourceKey where
  family := source.address.family
  bytes :=
    if source.address.family = .ipv6 then FixedBytes.copy 16 (source.address.bytes.1.take 8)
    else source.address.bytes

/-- Count one more handshake of the source. -/
def accept (limiter : HandshakeRateLimiter) (key : SourceKey) (bucket : SourceBucket) : HandshakeRateLimiter :=
  { limiter with
    sources := limiter.sources.insert key { bucket with count := bucket.count + 1 }
    globalCount := limiter.globalCount + 1 }

def allow (limiter : HandshakeRateLimiter) (now : Time) (source : Endpoint) : HandshakeRateLimiter × Bool :=
  let limiter := (limiter.resetGlobalIfExpired now).purgeExpiredSources now
  let key := sourceKey source
  match limiter.sources.find? key with
  | some bucket =>
    if limiter.config.perSourceLimit ≤ bucket.count then (limiter, false)
    else if limiter.config.globalLimit ≤ limiter.globalCount then (limiter, false)
    else (limiter.accept key bucket, true)
  | none =>
    if limiter.config.globalLimit ≤ limiter.globalCount then (limiter, false)
    else if limiter.config.maxSources ≤ limiter.sources.size then (limiter, false)
    else (limiter.accept key ⟨now, 0⟩, true)

/-! ### Sources -/

/-- The endpoints count as one source: the same IPv4 address, or IPv6 addresses with the same first 64 bits. -/
def sameSource (a b : Endpoint) : Bool :=
  a.address.family = b.address.family &&
    if a.address.family = .ipv6 then a.address.bytes.1.take 8 = b.address.bytes.1.take 8
    else a.address.bytes = b.address.bytes

theorem sourceKey_eq_iff (a b : Endpoint) : sourceKey a = sourceKey b ↔ sameSource a b = true := by
  simp only [sourceKey, SourceKey.mk.injEq, sameSource, Bool.and_eq_true, decide_eq_true_eq]
  refine and_congr_right fun hfamily => ?_
  rw [← hfamily]
  by_cases hsix : a.address.family = .ipv6
  · have hlength (c : FixedBytes 16) : (c.1.take 8).length = 8 := by simp [c.2]
    rw [if_pos hsix, if_pos hsix, if_pos hsix, decide_eq_true_eq,
      FixedBytes.copy_inj (by rw [hlength, hlength]) (by rw [hlength]; decide)]
  · simp only [if_neg hsix, decide_eq_true_eq]

/-! ### One call -/

variable {limiter : HandshakeRateLimiter} {now t : Time} {key : SourceKey} {total : Nat}

/-- The limiter as `allow` finds it after dropping what has expired. -/
def current (limiter : HandshakeRateLimiter) (now : Time) : HandshakeRateLimiter :=
  (limiter.resetGlobalIfExpired now).purgeExpiredSources now

theorem current_fields (limiter : HandshakeRateLimiter) (now : Time) :
    (limiter.current now).config = limiter.config ∧
      (limiter.current now).globalWindowStart = (limiter.resetGlobalIfExpired now).globalWindowStart ∧
      (limiter.current now).globalCount = (limiter.resetGlobalIfExpired now).globalCount ∧
      (limiter.current now).sources
        = limiter.sources.filter fun _ bucket => !limiter.expired bucket.windowStart now := by
  unfold current resetGlobalIfExpired
  split_ifs
  · exact ⟨rfl, rfl, rfl, rfl⟩
  · exact ⟨rfl, rfl, rfl, rfl⟩

/-- A handshake is refused, or counted for a source with room left, known or new. -/
theorem allow_cases (limiter : HandshakeRateLimiter) (now : Time) (source : Endpoint) :
    limiter.allow now source = (limiter.current now, false) ∨
    ∃ bucket, limiter.allow now source = ((limiter.current now).accept (sourceKey source) bucket, true) ∧
      (limiter.current now).globalCount < limiter.config.globalLimit ∧
      (((limiter.current now).sources.find? (sourceKey source) = some bucket ∧
          bucket.count < limiter.config.perSourceLimit) ∨
        ((limiter.current now).sources.find? (sourceKey source) = none ∧ bucket = ⟨now, 0⟩ ∧
          (limiter.current now).sources.size < limiter.config.maxSources)) := by
  have hallow : limiter.allow now source =
      match (limiter.current now).sources.find? (sourceKey source) with
      | some bucket =>
        if (limiter.current now).config.perSourceLimit ≤ bucket.count then (limiter.current now, false)
        else if (limiter.current now).config.globalLimit ≤ (limiter.current now).globalCount then
          (limiter.current now, false)
        else ((limiter.current now).accept (sourceKey source) bucket, true)
      | none =>
        if (limiter.current now).config.globalLimit ≤ (limiter.current now).globalCount then
          (limiter.current now, false)
        else if (limiter.current now).config.maxSources ≤ (limiter.current now).sources.size then
          (limiter.current now, false)
        else ((limiter.current now).accept (sourceKey source) ⟨now, 0⟩, true) := rfl
  rw [hallow, (current_fields limiter now).1]
  cases hfind : (limiter.current now).sources.find? (sourceKey source) with
  | some bucket =>
    by_cases hsource : limiter.config.perSourceLimit ≤ bucket.count
    · exact Or.inl (if_pos hsource)
    by_cases hglobal : limiter.config.globalLimit ≤ (limiter.current now).globalCount
    · exact Or.inl ((if_neg hsource).trans (if_pos hglobal))
    · exact Or.inr ⟨bucket, (if_neg hsource).trans (if_neg hglobal), Nat.not_le.mp hglobal,
        Or.inl ⟨rfl, Nat.not_le.mp hsource⟩⟩
  | none =>
    by_cases hglobal : limiter.config.globalLimit ≤ (limiter.current now).globalCount
    · exact Or.inl (if_pos hglobal)
    by_cases hfull : limiter.config.maxSources ≤ (limiter.current now).sources.size
    · exact Or.inl ((if_neg hglobal).trans (if_pos hfull))
    · exact Or.inr ⟨⟨now, 0⟩, (if_neg hglobal).trans (if_neg hfull), Nat.not_le.mp hglobal,
        Or.inr ⟨rfl, rfl, Nat.not_le.mp hfull⟩⟩

theorem config_allow (limiter : HandshakeRateLimiter) (now : Time) (source : Endpoint) :
    (limiter.allow now source).1.config = limiter.config := by
  have hconfig := (current_fields limiter now).1
  rcases limiter.allow_cases now source with h | ⟨bucket, h, -⟩
  · rw [h]
    exact hconfig
  · rw [h]
    exact hconfig

/-! ### The windows -/

/-- The open window of a source. -/
def sourceWindow (limiter : HandshakeRateLimiter) (key : SourceKey) : Option (FixedWindow Time) :=
  (limiter.sources.find? key).map fun bucket => ⟨bucket.windowStart, bucket.count⟩

/-- The open window of all sources together. -/
def globalWindow (limiter : HandshakeRateLimiter) : FixedWindow Time :=
  ⟨limiter.globalWindowStart, limiter.globalCount⟩

theorem passed_of_expired {start : Time} (h : limiter.expired start now = true) (hstart : start ≤ now) :
    start + limiter.config.window ≤ now := by
  simp only [expired, Bool.or_eq_true, decide_eq_true_eq] at h
  dsimp only [Time] at *
  omega

theorem tally_sourceWindow_current {limit : Nat}
    (h : FixedWindow.Tally limit limiter.config.window t now total (limiter.sourceWindow key)) :
    FixedWindow.Tally limit limiter.config.window t now total ((limiter.current now).sourceWindow key) := by
  rw [sourceWindow, (current_fields limiter now).2.2.2, SortedMap.find?_filter]
  unfold sourceWindow at h
  cases hfind : limiter.sources.find? key with
  | none =>
    rw [hfind] at h
    exact h
  | some bucket =>
    rw [hfind] at h
    cases hexpired : limiter.expired bucket.windowStart now with
    | false => simpa [Option.filter, hexpired] using h
    | true =>
      have hstart := (h.opened _ rfl).2.1
      simpa [Option.filter, hexpired] using h.close (passed_of_expired hexpired hstart)

theorem tally_globalWindow_current {limit : Nat}
    (h : FixedWindow.Tally limit limiter.config.window t now total (some limiter.globalWindow)) :
    FixedWindow.Tally limit limiter.config.window t now total (some (limiter.current now).globalWindow) := by
  obtain ⟨-, hstart, hcount, -⟩ := current_fields limiter now
  rw [globalWindow, hstart, hcount]
  unfold resetGlobalIfExpired
  cases hexpired : limiter.expired limiter.globalWindowStart now with
  | false => exact h
  | true => exact (h.close (passed_of_expired hexpired (h.opened _ rfl).2.1)).opens

theorem tally_source (source : Endpoint) (hlimit : 0 < limiter.config.perSourceLimit)
    (h : FixedWindow.Tally limiter.config.perSourceLimit limiter.config.window t now total (limiter.sourceWindow key)) :
    FixedWindow.Tally limiter.config.perSourceLimit limiter.config.window t now
      (total + if (limiter.allow now source).2 ∧ key = sourceKey source then
        (if t ≤ now ∧ now < t + limiter.config.window then 1 else 0) else 0)
      ((limiter.allow now source).1.sourceWindow key) := by
  have hcurrent := tally_sourceWindow_current h
  rcases limiter.allow_cases now source with hallow | ⟨bucket, hallow, -, hbucket⟩
  · simpa [hallow] using hcurrent
  rw [hallow]
  by_cases hkey : key = sourceKey source
  · subst hkey
    have hopen : FixedWindow.Tally limiter.config.perSourceLimit limiter.config.window t now total
        (some ⟨bucket.windowStart, bucket.count⟩) ∧ bucket.count < limiter.config.perSourceLimit := by
      unfold sourceWindow at hcurrent
      rcases hbucket with ⟨hfind, hroom⟩ | ⟨hfind, rfl, -⟩
      · rw [hfind] at hcurrent
        exact ⟨hcurrent, hroom⟩
      · rw [hfind] at hcurrent
        exact ⟨hcurrent.opens, hlimit⟩
    simpa [accept, sourceWindow] using hopen.1.admits hopen.2
  · simpa [accept, sourceWindow, hkey] using hcurrent

theorem tally_global (source : Endpoint)
    (h : FixedWindow.Tally limiter.config.globalLimit limiter.config.window t now total (some limiter.globalWindow)) :
    FixedWindow.Tally limiter.config.globalLimit limiter.config.window t now
      (total + if (limiter.allow now source).2 then
        (if t ≤ now ∧ now < t + limiter.config.window then 1 else 0) else 0)
      (some (limiter.allow now source).1.globalWindow) := by
  have hcurrent := tally_globalWindow_current h
  rcases limiter.allow_cases now source with hallow | ⟨bucket, hallow, hroom, -⟩
  · simpa [hallow] using hcurrent
  · simpa [hallow, accept, globalWindow] using hcurrent.admits hroom

theorem size_allow (h : limiter.sources.size ≤ limiter.config.maxSources) (now : Time) (source : Endpoint) :
    (limiter.allow now source).1.sources.size ≤ limiter.config.maxSources := by
  have hcurrent : (limiter.current now).sources.size ≤ limiter.config.maxSources := by
    rw [(current_fields limiter now).2.2.2]
    exact (SortedMap.size_filter_le _ _).trans h
  rcases limiter.allow_cases now source with hallow | ⟨bucket, hallow, -, ⟨hfind, -⟩ | ⟨-, -, hroom⟩⟩
  · rw [hallow]
    exact hcurrent
  · rw [hallow]
    exact (SortedMap.size_insert_of_contains _ (SortedMap.contains_iff.mpr ⟨bucket, hfind⟩)).trans hcurrent
  · rw [hallow]
    exact (SortedMap.size_insert_le _ _ _).trans hroom

/-! ### Runs -/

/-- A call of `allow` and the time its clock shows. -/
structure Call where
  now : Time
  source : Endpoint

def run (limiter : HandshakeRateLimiter) (calls : List Call) : HandshakeRateLimiter :=
  calls.foldl (fun limiter call => (limiter.allow call.now call.source).1) limiter

def accepted : HandshakeRateLimiter → List Call → List Call
  | _, [] => []
  | limiter, call :: rest =>
    let next := limiter.allow call.now call.source
    if next.2 then call :: accepted next.1 rest else accepted next.1 rest

def ClockOrdered (start : Time) (calls : List Call) : Prop :=
  List.IsChain (· ≤ ·) (start :: calls.map (·.now))

/-- The call falls in the interval of the given length from `t` on. -/
def Call.within (t length : Time) (call : Call) : Bool := t ≤ call.now && call.now < t + length

theorem countP_accepted_cons (counts : Call → Bool) (limiter : HandshakeRateLimiter) (call : Call) (rest : List Call) :
    (limiter.accepted (call :: rest)).countP counts =
      (if (limiter.allow call.now call.source).2 ∧ counts call then 1 else 0) +
        ((limiter.allow call.now call.source).1.accepted rest).countP counts := by
  cases hanswer : (limiter.allow call.now call.source).2 with
  | false => simp [accepted, hanswer]
  | true =>
    simp only [accepted, hanswer, if_true, List.countP_cons, true_and]
    exact Nat.add_comm _ _

/-- Calls whose accepted ones are tallied in some window are accepted at most twice as often as it admits. -/
theorem countP_accepted_le (scope : Call → Bool) (window : HandshakeRateLimiter → Option (FixedWindow Time))
    {limit : Nat} {config : HandshakeRateLimitConfig} {calls : List Call}
    (hstep : ∀ (limiter : HandshakeRateLimiter) (call : Call) (total : Nat), limiter.config = config →
      FixedWindow.Tally limit config.window t call.now total (window limiter) →
      FixedWindow.Tally limit config.window t call.now
        (total + if (limiter.allow call.now call.source).2 ∧ scope call then
          (if t ≤ call.now ∧ call.now < t + config.window then 1 else 0) else 0)
        (window (limiter.allow call.now call.source).1)) (hconfig : limiter.config = config)
    (h : FixedWindow.Tally limit config.window t now total (window limiter)) (hclock : ClockOrdered now calls) :
    total + (limiter.accepted calls).countP (fun call => scope call && call.within t config.window) ≤ 2 * limit := by
  induction calls generalizing limiter now total with
  | nil => simpa [accepted] using h.bound
  | cons call rest ih =>
    rw [ClockOrdered, List.map_cons, List.isChain_cons_cons] at hclock
    have hnext := hstep limiter call total hconfig (h.later hclock.1)
    have hrest := ih ((limiter.config_allow call.now call.source).trans hconfig) hnext hclock.2
    rw [countP_accepted_cons, ← Nat.add_assoc]
    refine Nat.le_trans (Nat.add_le_add_right (Nat.add_le_add_left (Nat.le_of_eq ?_) _) _) hrest
    simp only [Call.within, Bool.and_eq_true, decide_eq_true_eq, ← and_assoc, ← ite_and]

theorem size_run (h : limiter.sources.size ≤ limiter.config.maxSources) (calls : List Call) :
    (limiter.run calls).sources.size ≤ limiter.config.maxSources := by
  induction calls generalizing limiter with
  | nil => exact h
  | cons call rest ih =>
    have hconfig := limiter.config_allow call.now call.source
    have hnext := size_allow h call.now call.source
    rw [← hconfig] at hnext ⊢
    exact ih hnext

theorem create_config (config : HandshakeRateLimitConfig) (start : Time) :
    (create config start).config = { config with window := max 1 config.window } := by
  obtain ⟨perSource, global, maxSources, window⟩ := config
  simp only [create]
  split_ifs with h
  · simp only [HandshakeRateLimitConfig.mk.injEq, true_and]
    dsimp only [Time] at *
    omega
  · simp only [HandshakeRateLimitConfig.mk.injEq, true_and]
    dsimp only [Time] at *
    omega

/-- With a limit of none for a source, its first handshake is accepted all the same: the limit is only compared with
the count of a source that is already tracked. -/
theorem accepts_beyond_zero_limit :
    let config : HandshakeRateLimitConfig := { perSourceLimit := 0 }
    ClockOrdered 0 [⟨0, {}⟩] ∧
      ¬ ((create config 0).accepted [⟨0, {}⟩]).countP
          (fun call => sameSource {} call.source && call.within 0 config.window) ≤ 2 * config.perSourceLimit := by
  intro config
  exact ⟨by simp [ClockOrdered], by decide +kernel⟩

/-- In any interval as long as a window at most twice the limit is accepted, for one source if it may have any and
for all of them, and the table of sources stays within its limit. -/
theorem accepts_within_limits (config : HandshakeRateLimitConfig) (start : Time) (calls : List Call)
    (hclock : ClockOrdered start calls) :
    (∀ t : Time,
      (0 < config.perSourceLimit → ∀ source,
        ((create config start).accepted calls).countP
            (fun call => sameSource source call.source && call.within t (max 1 config.window))
          ≤ 2 * config.perSourceLimit) ∧
      ((create config start).accepted calls).countP (fun call => call.within t (max 1 config.window))
        ≤ 2 * config.globalLimit) ∧
    ((create config start).run calls).sources.size ≤ config.maxSources := by
  have hconfig := create_config config start
  refine ⟨fun t => ⟨fun hlimit source => ?_, ?_⟩, ?_⟩
  · have hle := countP_accepted_le (fun call => sameSource source call.source)
      (fun limiter => limiter.sourceWindow (sourceKey source)) ?_ hconfig
      (FixedWindow.Tally.start config.perSourceLimit _ t start) hclock
    · rwa [Nat.zero_add] at hle
    · rintro limiter call total hsame h
      have hnext := tally_source call.source (by rw [hsame]; exact hlimit) (by rw [hsame]; exact h)
      rw [hsame] at hnext
      simpa only [sourceKey_eq_iff] using hnext
  · have hle := countP_accepted_le (fun _ => true) (fun limiter => some limiter.globalWindow) ?_ hconfig
      (FixedWindow.Tally.start config.globalLimit _ t start).opens hclock
    · rwa [Nat.zero_add] at hle
    · rintro limiter call total hsame h
      have hnext := tally_global call.source (by rw [hsame]; exact h)
      rw [hsame] at hnext
      simpa only [and_true] using hnext
  · have hempty : (create config start).sources.size ≤ (create config start).config.maxSources := Nat.zero_le _
    have hsize := size_run hempty calls
    rwa [hconfig] at hsize

/-- Two ports of one address share a limit of one, until the window has passed. -/
theorem accepts_within_limits_one_each :
    let address : IPAddress := ⟨.ipv4, FixedBytes.copy 16 [192, 0, 2, 7]⟩
    let calls : List Call := [⟨0, ⟨address, 4000⟩⟩, ⟨5, ⟨address, 4001⟩⟩, ⟨1000, ⟨address, 4002⟩⟩]
    let limiter := create { perSourceLimit := 1 } 0
    (limiter.accepted calls).map (·.now) = [0, 1000] ∧
      (limiter.accepted calls).countP
        (fun call => sameSource ⟨address, 4000⟩ call.source && call.within 1 1000) ≤ 2 := by
  intro address calls limiter
  exact ⟨by decide +kernel,
    ((accepts_within_limits { perSourceLimit := 1 } 0 calls (by simp [calls, ClockOrdered])).1 1).1 Nat.one_pos _⟩

end HandshakeRateLimiter

end Aegis
