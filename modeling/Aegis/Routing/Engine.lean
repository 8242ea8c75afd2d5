import Aegis.Lib.UpdateFirst
import Aegis.Net.Address
import Mathlib.Data.List.Nodup

/-!
# The routing engine

`routing/routing.cpp`: the table of route candidates. A candidate is the path learned from one next hop
towards one destination over one prefix; `add_route` overwrites the candidate it refreshes, in place, and
appends a new one while the table and the prefix have room. The table is only reached through these
operations, so an engine carries what they maintain: the two capacities, at most one candidate under
each key, and candidates that passed the checks of `add_route`.

Clock readings are in milliseconds and leases in seconds. `find_peer` and `find_next_hop`, which read a
field of the route found, are left out.
-/

namespace Aegis

def ROUTING_MAX_ROUTES : Nat := 2048
def ROUTING_MAX_CANDIDATES_PER_PREFIX : Nat := 8
def ROUTE_DEFAULT_LEASE : Int := 90
def ROUTE_MAX_LEASE : Int := 600
def ROUTE_MAX_METRIC : UInt32 := 1000000
def ROUTE_PROBE_HOLD_DOWN : Time := 30000

inductive NextHopType where
  | direct
  | relay
  | unknown
deriving DecidableEq

/-- What the end-to-end probes of a candidate have shown. -/
structure RouteProbe where
  lastSentAt : Option Time := none
  lastValidatedAt : Option Time := none
  lastRtt : Option Time := none
  failed : Bool := false
  consecutiveFailures : UInt32 := 0
  holdDownUntil : Option Time := none
deriving DecidableEq

structure Route where
  network : IPAddress := {}
  prefixLength : UInt32 := 0
  type : NextHopType := .unknown
  nextHop : NodeId := FixedBytes.zero 32
  destination : NodeId := FixedBytes.zero 32
  path : List NodeId := []
  origin : NodeId := FixedBytes.zero 32
  advertiser : NodeId := FixedBytes.zero 32
  sequenceNumber : UInt64 := 1
  lease : Int := ROUTE_DEFAULT_LEASE
  metric : UInt32 := 0
  validatedAt : Time := 0
  probe : RouteProbe := {}
deriving DecidableEq

def validPrefixLength (network : IPAddress) (length : UInt32) : Bool := length.toNat ≤ network.bitWidth

def canonicalPrefix (network : IPAddress) (length : UInt32) : IPAddress :=
  (IPPrefix.of network length.toUInt8).address

def learnedRouteLeaseExpired (route : Route) (now : Time) : Bool :=
  route.type = .relay && route.validatedAt ≤ now && route.lease * 1000 ≤ now - route.validatedAt

namespace Route

/-- A complete hop list from the next hop to the destination that visits no node twice. -/
def loopFree (route : Route) : Bool :=
  2 ≤ route.path.length && route.path.head? = some route.nextHop &&
    route.path.getLast? = some route.destination && route.path.Nodup

/-- The checks of `add_route` on the route as given. -/
def wellShaped (route : Route) : Bool :=
  validPrefixLength route.network route.prefixLength &&
    match route.type with
    | .unknown => false
    | .relay => route.nextHop ≠ route.destination && route.loopFree
    | .direct => route.nextHop = route.destination && route.path = [route.destination]

/-- The route as stored: canonical prefix, origin and advertiser filled in. -/
def candidate (route : Route) : Route :=
  { route with
    network := canonicalPrefix route.network route.prefixLength
    origin := if route.origin = FixedBytes.zero 32 then route.destination else route.origin
    advertiser := if route.advertiser = FixedBytes.zero 32 then route.nextHop else route.advertiser }

/-- The checks of `add_route` on the freshness data. -/
def withinLimits (route : Route) : Bool :=
  route.sequenceNumber ≠ 0 && 0 < route.lease && route.lease ≤ ROUTE_MAX_LEASE && route.metric ≤ ROUTE_MAX_METRIC

/-- What two routes for the same candidate have in common. -/
def key (route : Route) : IPAddress × UInt32 × NextHopType × NodeId × NodeId :=
  (route.network, route.prefixLength, route.type, route.nextHop, route.destination)

def isFor (network : IPAddress) (prefixLength : UInt32) (route : Route) : Bool :=
  route.network = network && route.prefixLength = prefixLength

/-- A refresh under the same sequence number keeps what the probes have shown. -/
def refresh (candidate existing : Route) : Route :=
  if candidate.sequenceNumber = existing.sequenceNumber then { candidate with probe := existing.probe }
  else candidate

/-- What `add_route` guarantees of every stored route. -/
structure Valid (route : Route) : Prop where
  shape : route.wellShaped = true
  limits : route.withinLimits = true
  canonical : canonicalPrefix route.network route.prefixLength = route.network

end Route

/-- What the engine's operations maintain of its table. -/
structure RoutesInvariant (maxRoutes : Nat) (routes : List Route) : Prop where
  bounded : routes.length ≤ maxRoutes
  keys : (routes.map Route.key).Nodup
  candidates : ∀ network prefixLength,
    routes.countP (Route.isFor network prefixLength) ≤ ROUTING_MAX_CANDIDATES_PER_PREFIX
  valid : ∀ route ∈ routes, route.Valid

theorem RoutesInvariant.nil (maxRoutes : Nat) : RoutesInvariant maxRoutes [] :=
  ⟨Nat.zero_le _, List.nodup_nil, fun _ _ => Nat.zero_le _, by simp⟩

theorem RoutesInvariant.filter {maxRoutes : Nat} {routes : List Route} (h : RoutesInvariant maxRoutes routes)
    (p : Route → Bool) : RoutesInvariant maxRoutes (routes.filter p) where
  bounded := (List.length_filter_le p routes).trans h.bounded
  keys := h.keys.sublist (List.filter_sublist.map _)
  candidates network prefixLength := (List.filter_sublist.countP_le).trans (h.candidates network prefixLength)
  valid route hroute := h.valid route (List.mem_of_mem_filter hroute)

theorem RoutesInvariant.updateFirst {maxRoutes : Nat} {routes : List Route} {p : Route → Bool}
    {f : Route → Route} (h : RoutesInvariant maxRoutes routes)
    (hkey : ∀ route, routes.find? p = some route → (f route).key = route.key)
    (hvalid : ∀ route, routes.find? p = some route → (f route).Valid) :
    RoutesInvariant maxRoutes (routes.updateFirst p f) where
  bounded := List.length_updateFirst.le.trans h.bounded
  keys := by
    rw [List.map_updateFirst hkey]
    exact h.keys
  candidates network prefixLength := by
    rw [List.countP_updateFirst]
    · exact h.candidates network prefixLength
    · intro route hroute
      obtain ⟨hnetwork, hlength, -⟩ := Prod.mk.inj (hkey route hroute) |>.imp_right Prod.mk.inj
      simp only [Route.isFor, hnetwork, hlength]
  valid route hroute := by
    rcases List.mem_updateFirst hroute with hroute | ⟨existing, hfind, rfl⟩
    · exact h.valid route hroute
    · exact hvalid existing hfind

structure RoutingEngine where
  maxRoutes : Nat := ROUTING_MAX_ROUTES
  routes : List Route := []
  invariant : RoutesInvariant maxRoutes routes := by exact RoutesInvariant.nil _

namespace Route

@[simp] theorem validPrefixLength_canonicalPrefix (network : IPAddress) (length : UInt32) :
    validPrefixLength (canonicalPrefix network length) length = validPrefixLength network length := by
  simp [validPrefixLength, canonicalPrefix, IPPrefix.of]

@[simp] theorem canonicalPrefix_canonicalPrefix (network : IPAddress) (length : UInt32) :
    canonicalPrefix (canonicalPrefix network length) length = canonicalPrefix network length :=
  network.canonicalize_canonicalize length.toUInt8

@[simp] theorem wellShaped_candidate (route : Route) : route.candidate.wellShaped = route.wellShaped := by
  have hlength : validPrefixLength route.candidate.network route.candidate.prefixLength
      = validPrefixLength route.network route.prefixLength := validPrefixLength_canonicalPrefix _ _
  rw [wellShaped, hlength]
  rfl

variable {route : Route}

theorem valid_candidate (hshape : route.wellShaped = true)
    (hlimits : route.candidate.withinLimits = true) : route.candidate.Valid :=
  ⟨by rw [wellShaped_candidate, hshape], hlimits, canonicalPrefix_canonicalPrefix _ _⟩

@[simp] theorem refresh_key (candidate existing : Route) : (candidate.refresh existing).key = candidate.key := by
  unfold refresh
  split_ifs <;> rfl

theorem Valid.refresh {candidate : Route} (h : candidate.Valid) (existing : Route) :
    (candidate.refresh existing).Valid := by
  unfold Route.refresh
  split_ifs
  · exact ⟨h.shape, h.limits, h.canonical⟩
  · exact h

/-! The shape of a stored route -/

theorem Valid.direct (h : route.Valid) (htype : route.type = .direct) :
    route.nextHop = route.destination ∧ route.path = [route.destination] := by
  have hshape := h.shape
  simp only [wellShaped, htype, Bool.and_eq_true, decide_eq_true_eq] at hshape
  exact hshape.2

theorem Valid.relay (h : route.Valid) (htype : route.type = .relay) :
    route.nextHop ≠ route.destination ∧ 2 ≤ route.path.length ∧
      route.path.getLast? = some route.destination ∧ route.path.Nodup := by
  have hshape := h.shape
  simp only [wellShaped, htype, loopFree, Bool.and_eq_true, decide_eq_true_eq] at hshape
  obtain ⟨-, hnext, ⟨⟨htwo, -⟩, hlast⟩, hnodup⟩ := hshape
  exact ⟨hnext, htwo, hlast, hnodup⟩

theorem Valid.direct_or_relay (h : route.Valid) : route.type = .direct ∨ route.type = .relay := by
  cases htype : route.type with
  | unknown =>
    have hshape := h.shape
    simp [wellShaped, htype] at hshape
  | direct => exact Or.inl rfl
  | relay => exact Or.inr rfl

theorem Valid.path_ne_nil (h : route.Valid) : route.path ≠ [] := by
  rcases h.direct_or_relay with htype | htype
  · rw [(h.direct htype).2]
    exact List.cons_ne_nil _ _
  · exact List.ne_nil_of_length_pos (Nat.zero_lt_two.trans_le (h.relay htype).2.1)

theorem key_of_find? {routes : List Route} {key : IPAddress × UInt32 × NextHopType × NodeId × NodeId}
    (h : routes.find? (fun r => r.key = key) = some route) : route.key = key := by
  simpa using List.find?_some h

end Route

/-- The table after `add_route`, if it takes the route. -/
def withCandidate (maxRoutes : Nat) (routes : List Route) (route : Route) : Option (List Route) :=
  if !route.wellShaped || !route.candidate.withinLimits then none
  else
    let candidate := route.candidate
    match routes.find? (fun r => r.key = candidate.key) with
    | some _ => some (routes.updateFirst (fun r => r.key = candidate.key) candidate.refresh)
    | none =>
      if maxRoutes ≤ routes.length then none
      else if ROUTING_MAX_CANDIDATES_PER_PREFIX ≤
          routes.countP (Route.isFor candidate.network candidate.prefixLength) then none
      else some (routes ++ [candidate])

/-- The table has room for one more candidate of the prefix. -/
def HasRoom (maxRoutes : Nat) (routes : List Route) (network : IPAddress) (prefixLength : UInt32) : Prop :=
  routes.length < maxRoutes ∧
    routes.countP (Route.isFor network prefixLength) < ROUTING_MAX_CANDIDATES_PER_PREFIX

instance (maxRoutes : Nat) (routes : List Route) (network : IPAddress) (prefixLength : UInt32) :
    Decidable (HasRoom maxRoutes routes network prefixLength) :=
  inferInstanceAs (Decidable (_ ∧ _))

/-- What `add_route` does: it refreshes the candidate's entry, appends the candidate where there is room,
or refuses. -/
theorem withCandidate_cases (maxRoutes : Nat) (routes : List Route) (route : Route) :
    (∃ existing, route.wellShaped = true ∧ route.candidate.withinLimits = true ∧
        routes.find? (fun r => r.key = route.candidate.key) = some existing ∧
        withCandidate maxRoutes routes route =
          some (routes.updateFirst (fun r => r.key = route.candidate.key) route.candidate.refresh)) ∨
    (route.wellShaped = true ∧ route.candidate.withinLimits = true ∧
        routes.find? (fun r => r.key = route.candidate.key) = none ∧
        HasRoom maxRoutes routes route.candidate.network route.candidate.prefixLength ∧
        withCandidate maxRoutes routes route = some (routes ++ [route.candidate])) ∨
    ((route.wellShaped = false ∨ route.candidate.withinLimits = false ∨
        routes.find? (fun r => r.key = route.candidate.key) = none ∧
          ¬HasRoom maxRoutes routes route.candidate.network route.candidate.prefixLength) ∧
        withCandidate maxRoutes routes route = none) := by
  unfold withCandidate HasRoom
  cases hshape : route.wellShaped with
  | false => simp
  | true =>
    cases hlimits : route.candidate.withinLimits with
    | false => simp
    | true =>
      cases hfind : routes.find? (fun r => r.key = route.candidate.key) with
      | some existing => exact Or.inl ⟨existing, by simp [hfind]⟩
      | none =>
        right
        by_cases hfull : maxRoutes ≤ routes.length
        · right
          simp [hfind, hfull, not_lt.mpr hfull]
        · by_cases hcount : ROUTING_MAX_CANDIDATES_PER_PREFIX ≤
              routes.countP (Route.isFor route.candidate.network route.candidate.prefixLength)
          · right
            simp [hfind, hcount, not_lt.mpr hcount]
          · left
            simp [hfind, hcount, hfull, not_le.mp hfull, not_le.mp hcount]

theorem RoutesInvariant.withCandidate {maxRoutes : Nat} {routes routes' : List Route} {route : Route}
    (h : RoutesInvariant maxRoutes routes) (hadd : withCandidate maxRoutes routes route = some routes') :
    RoutesInvariant maxRoutes routes' := by
  rcases withCandidate_cases maxRoutes routes route with
    ⟨existing, hshape, hlimits, hfind, heq⟩ | ⟨hshape, hlimits, hfind, ⟨hroom, hcount⟩, heq⟩ | ⟨-, heq⟩
  · obtain rfl := Option.some.inj (heq.symm.trans hadd)
    have hvalid := Route.valid_candidate hshape hlimits
    apply h.updateFirst
    · intro r hr
      rw [Route.refresh_key, Route.key_of_find? hr]
    · exact fun r _ => hvalid.refresh r
  · obtain rfl := Option.some.inj (heq.symm.trans hadd)
    refine ⟨by simpa using Nat.succ_le_of_lt hroom, ?_, fun network prefixLength => ?_, fun r hr => ?_⟩
    · rw [List.map_append, List.nodup_append]
      refine ⟨h.keys, List.nodup_singleton _, ?_⟩
      intro k hk k' hk' heq'
      obtain ⟨r, hr, rfl⟩ := List.mem_map.mp hk
      rw [List.map_singleton, List.mem_singleton] at hk'
      exact absurd (heq'.trans hk') (by simpa using List.find?_eq_none.mp hfind r hr)
    · rw [List.countP_append, List.countP_singleton]
      split_ifs with hfor
      · -- the prefix of the new candidate is the one that was counted
        obtain ⟨rfl, rfl⟩ : route.candidate.network = network ∧ route.candidate.prefixLength = prefixLength := by
          simpa [Route.isFor] using hfor
        exact hcount
      · exact h.candidates network prefixLength
    · rcases List.mem_append.mp hr with hr | hr
      · exact h.valid r hr
      · obtain rfl := List.mem_singleton.mp hr
        exact Route.valid_candidate hshape hlimits
  · rw [heq] at hadd
    cases hadd

namespace RoutingEngine

instance : DecidableEq RoutingEngine := fun a b =>
  decidable_of_iff (a.maxRoutes = b.maxRoutes ∧ a.routes = b.routes)
    ⟨fun h => by cases a; cases b; simp_all, fun h => by simp [h]⟩

def addRoute (re : RoutingEngine) (route : Route) : RoutingEngine × Bool :=
  match h : withCandidate re.maxRoutes re.routes route with
  | some routes => (⟨re.maxRoutes, routes, re.invariant.withCandidate h⟩, true)
  | none => (re, false)

/-- `std::erase_if` on the table. -/
def eraseIf (re : RoutingEngine) (p : Route → Bool) : RoutingEngine :=
  ⟨re.maxRoutes, re.routes.filter (fun route => !p route), re.invariant.filter _⟩

def removeRoute (re : RoutingEngine) (peerId : NodeId) : RoutingEngine :=
  re.eraseIf fun route => route.destination = peerId || route.nextHop = peerId

/-- A learned route of the origin over the prefix. -/
def isLearned (origin : NodeId) (network : IPAddress) (prefixLength : UInt32) (route : Route) : Bool :=
  route.type = .relay && route.origin = origin && route.isFor network prefixLength

def removeOlderLearnedRoutes (re : RoutingEngine) (origin : NodeId) (network : IPAddress)
    (prefixLength : UInt32) (minimumSequence : UInt64) : RoutingEngine × Nat :=
  if !validPrefixLength network prefixLength then (re, 0)
  else
    let canonical := canonicalPrefix network prefixLength
    let re' := re.eraseIf fun route =>
      isLearned origin canonical prefixLength route && route.sequenceNumber < minimumSequence
    (re', re.routes.length - re'.routes.length)

def expireLearnedRoutes (re : RoutingEngine) (now : Time) : RoutingEngine × Nat :=
  let re' := re.eraseIf fun route => learnedRouteLeaseExpired route now
  (re', re.routes.length - re'.routes.length)

/-- The candidate a probe is about. -/
structure ProbeTarget where
  destination : NodeId
  nextHop : NodeId
  network : IPAddress
  prefixLength : UInt32
  sequence : UInt64

def ProbeTarget.matches (target : ProbeTarget) (route : Route) : Bool :=
  route.destination = target.destination && route.nextHop = target.nextHop &&
    route.isFor (canonicalPrefix target.network target.prefixLength) target.prefixLength &&
    route.sequenceNumber = target.sequence

/-- The common part of the probe operations: change what the probes have shown of the first match. -/
def updateProbe (re : RoutingEngine) (target : ProbeTarget) (f : RouteProbe → RouteProbe) :
    RoutingEngine × Bool :=
  if !validPrefixLength target.network target.prefixLength then (re, false)
  else if (re.routes.find? target.matches).isNone then (re, false)
  else
    (⟨re.maxRoutes, re.routes.updateFirst target.matches fun route => { route with probe := f route.probe },
      re.invariant.updateFirst (fun _ _ => rfl) fun route hfind =>
        let hvalid := re.invariant.valid route (List.mem_of_find?_eq_some hfind)
        ⟨hvalid.shape, hvalid.limits, hvalid.canonical⟩⟩, true)

def markProbeSent (re : RoutingEngine) (target : ProbeTarget) (now : Time) : RoutingEngine × Bool :=
  re.updateProbe target fun probe => { probe with lastSentAt := some now }

def recordProbeSuccess (re : RoutingEngine) (target : ProbeTarget) (now rtt : Time) : RoutingEngine × Bool :=
  if rtt < 0 then (re, false)
  else re.updateProbe target fun probe =>
    let probe := { probe with lastValidatedAt := some now, lastRtt := some rtt }
    -- a failed candidate comes back only after its hold-down
    if !probe.failed || probe.holdDownUntil.any (· ≤ now) then
      { probe with failed := false, consecutiveFailures := 0, holdDownUntil := none }
    else probe

def recordProbeFailure (re : RoutingEngine) (target : ProbeTarget) (now : Time) : RoutingEngine × Bool :=
  re.updateProbe target fun probe =>
    { probe with
      failed := true
      consecutiveFailures :=
        if probe.consecutiveFailures.toNat < 2 ^ 32 - 1 then probe.consecutiveFailures + 1
        else probe.consecutiveFailures
      holdDownUntil := some (now + ROUTE_PROBE_HOLD_DOWN) }

def clear (re : RoutingEngine) : RoutingEngine := { maxRoutes := re.maxRoutes, routes := [] }

/-- The order in which `find_route` prefers candidates: longer prefixes, then direct routes, then shorter
relay paths. -/
def preferred (route best : Route) : Bool :=
  best.prefixLength < route.prefixLength ||
    (route.prefixLength == best.prefixLength &&
      ((route.type = .direct && best.type = .relay) ||
        (route.type = .relay && best.type = .relay && route.path.length < best.path.length)))

def bestRoute (re : RoutingEngine) (destIp : IPAddress) : Option Route :=
  re.routes.foldl (fun best route =>
    if route.probe.failed then best
    else if !(IPPrefix.of route.network route.prefixLength.toUInt8).contains destIp then best
    else
      match best with
      | none => some route
      | some b => if preferred route b then some route else best) none

def findRoute (re : RoutingEngine) (destIp : IPAddress) : Option Route :=
  (re.bestRoute destIp).filter fun best => best.type ≠ .relay || best.loopFree

variable {re : RoutingEngine}

theorem mem_of_findRoute {destIp : IPAddress} {route : Route}
    (h : re.findRoute destIp = some route) : route ∈ re.routes := by
  have hbest : ∀ best ∈ re.bestRoute destIp, best ∈ re.routes := by
    unfold bestRoute
    refine List.foldlRecOn (motive := fun best : Option Route => ∀ b ∈ best, b ∈ re.routes) re.routes _
      (by simp) ?_
    intro best ih route hroute
    split_ifs
    · exact ih
    · exact ih
    · cases best with
      | none => simpa using hroute
      | some b =>
        dsimp only
        split_ifs
        · simpa using hroute
        · exact ih
  exact hbest route (Option.filter_eq_some_iff.mp h).1

def routesTo (re : RoutingEngine) (dest : NodeId) : List Route :=
  re.routes.filter fun route => route.destination = dest

/-! ### What the operations do to the table -/

theorem mem_eraseIf {p : Route → Bool} {route : Route} :
    route ∈ (re.eraseIf p).routes ↔ route ∈ re.routes ∧ p route = false := by
  simp [eraseIf]

/-- `add_route` refreshes the candidate's entry, appends the candidate where there is room, or refuses and
changes nothing. -/
theorem addRoute_cases (re : RoutingEngine) (route : Route) :
    (∃ existing, route.wellShaped = true ∧ route.candidate.withinLimits = true ∧
        re.routes.find? (fun r => r.key = route.candidate.key) = some existing ∧
        (re.addRoute route).1.routes =
          re.routes.updateFirst (fun r => r.key = route.candidate.key) route.candidate.refresh ∧
        (re.addRoute route).2 = true) ∨
    (route.wellShaped = true ∧ route.candidate.withinLimits = true ∧
        re.routes.find? (fun r => r.key = route.candidate.key) = none ∧
        HasRoom re.maxRoutes re.routes route.candidate.network route.candidate.prefixLength ∧
        (re.addRoute route).1.routes = re.routes ++ [route.candidate] ∧ (re.addRoute route).2 = true) ∨
    ((route.wellShaped = false ∨ route.candidate.withinLimits = false ∨
        re.routes.find? (fun r => r.key = route.candidate.key) = none ∧
          ¬HasRoom re.maxRoutes re.routes route.candidate.network route.candidate.prefixLength) ∧
        re.addRoute route = (re, false)) := by
  unfold addRoute
  rcases withCandidate_cases re.maxRoutes re.routes route with
    ⟨existing, hshape, hlimits, hfind, heq⟩ | ⟨hshape, hlimits, hfind, hroom, heq⟩ | ⟨hreason, heq⟩
  · left
    refine ⟨existing, hshape, hlimits, hfind, ?_⟩
    split <;> simp_all
  · right; left
    refine ⟨hshape, hlimits, hfind, hroom, ?_⟩
    split <;> simp_all
  · right; right
    refine ⟨hreason, ?_⟩
    split <;> simp_all

@[simp] theorem addRoute_maxRoutes (re : RoutingEngine) (route : Route) :
    (re.addRoute route).1.maxRoutes = re.maxRoutes := by
  unfold addRoute
  split <;> rfl

theorem eq_of_key_eq {a b : Route} (ha : a ∈ re.routes) (hb : b ∈ re.routes) (h : a.key = b.key) : a = b :=
  List.inj_on_of_nodup_map re.invariant.keys ha hb h

theorem eq_of_find?_key {key : IPAddress × UInt32 × NextHopType × NodeId × NodeId} {route existing : Route}
    (hroute : route ∈ re.routes) (hkey : route.key = key)
    (hfind : re.routes.find? (fun r => r.key = key) = some existing) : route = existing :=
  eq_of_key_eq hroute (List.mem_of_find?_eq_some hfind) (hkey.trans (Route.key_of_find? hfind).symm)

theorem routes_addRoute_of_find? {route existing : Route} (hshape : route.wellShaped = true)
    (hlimits : route.candidate.withinLimits = true)
    (hfind : re.routes.find? (fun r => r.key = route.candidate.key) = some existing) :
    (re.addRoute route).1.routes =
      re.routes.map fun r => if r.key = route.candidate.key then route.candidate.refresh r else r := by
  rcases re.addRoute_cases route with ⟨_, -, -, -, heq, -⟩ | ⟨-, -, hnone, -⟩ | ⟨hbad | hbad | ⟨hnone, -⟩, -⟩
  · rw [heq, List.updateFirst_eq_map re.invariant.keys]
    · simp only [decide_eq_true_eq]
    · intro a _ b _ ha hb
      exact (of_decide_eq_true ha).trans (of_decide_eq_true hb).symm
  · rw [hfind] at hnone
    cases hnone
  · rw [hshape] at hbad
    cases hbad
  · rw [hlimits] at hbad
    cases hbad
  · rw [hfind] at hnone
    cases hnone

theorem mem_addRoute {route r : Route} (h : r ∈ (re.addRoute route).1.routes) :
    r ∈ re.routes ∨ r = { route.candidate with probe := r.probe } := by
  rcases re.addRoute_cases route with ⟨existing, -, -, -, heq, -⟩ | ⟨-, -, -, -, heq, -⟩ | ⟨-, heq⟩
  · rw [heq] at h
    rcases List.mem_updateFirst h with h | ⟨existing, -, rfl⟩
    · exact Or.inl h
    · right
      unfold Route.refresh
      split_ifs <;> rfl
  · rw [heq, List.mem_append, List.mem_singleton] at h
    rcases h with h | rfl
    · exact Or.inl h
    · exact Or.inr rfl
  · rw [heq] at h
    exact Or.inl h

theorem mem_of_addRoute {route : Route} (h : (re.addRoute route).2 = true) :
    ∃ r ∈ (re.addRoute route).1.routes, r = { route.candidate with probe := r.probe } := by
  rcases re.addRoute_cases route with ⟨existing, -, -, hfind, heq, -⟩ | ⟨-, -, -, -, heq, -⟩ | ⟨-, heq⟩
  · rw [heq]
    refine ⟨_, List.mem_updateFirst_of_find? hfind, ?_⟩
    unfold Route.refresh
    split_ifs <;> rfl
  · rw [heq]
    exact ⟨route.candidate, by simp, rfl⟩
  · rw [heq] at h
    cases h

theorem addRoute_eq_true_iff (re : RoutingEngine) (route : Route) :
    (re.addRoute route).2 = true ↔ route.wellShaped = true ∧ route.candidate.withinLimits = true ∧
      ((∃ r ∈ re.routes, r.key = route.candidate.key) ∨
        HasRoom re.maxRoutes re.routes route.candidate.network route.candidate.prefixLength) := by
  rcases re.addRoute_cases route with
    ⟨existing, hshape, hlimits, hfind, -, htrue⟩ | ⟨hshape, hlimits, -, hroom, -, htrue⟩ | ⟨hreason, heq⟩
  · exact iff_of_true htrue
      ⟨hshape, hlimits, Or.inl ⟨existing, List.mem_of_find?_eq_some hfind, Route.key_of_find? hfind⟩⟩
  · exact iff_of_true htrue ⟨hshape, hlimits, Or.inr hroom⟩
  · rw [heq]
    refine iff_of_false (by simp) fun ⟨hshape, hlimits, hcase⟩ => ?_
    rcases hreason with h | h | ⟨hnone, hfull⟩
    · rw [hshape] at h
      cases h
    · rw [hlimits] at h
      cases h
    · rcases hcase with ⟨r, hr, hkey⟩ | hroom
      · exact absurd hkey (by simpa using List.find?_eq_none.mp hnone r hr)
      · exact hfull hroom

theorem addRoute_of_eq_false {route : Route} (h : (re.addRoute route).2 = false) : (re.addRoute route).1 = re := by
  rcases re.addRoute_cases route with ⟨_, -, -, -, -, htrue⟩ | ⟨-, -, -, -, -, htrue⟩ | ⟨-, heq⟩
  · rw [h] at htrue
    cases htrue
  · rw [h] at htrue
    cases htrue
  · rw [heq]

theorem hasRoom_of_addRoute {route : Route} {network : IPAddress} {prefixLength : UInt32}
    (h : HasRoom re.maxRoutes (re.addRoute route).1.routes network prefixLength) :
    HasRoom re.maxRoutes re.routes network prefixLength := by
  rcases re.addRoute_cases route with ⟨_, -, -, -, heq, -⟩ | ⟨-, -, -, -, heq, -⟩ | ⟨-, heq⟩
  · rw [heq] at h
    refine ⟨by simpa using h.1, ?_⟩
    rw [← List.countP_updateFirst (p := fun r => r.key = route.candidate.key) (f := route.candidate.refresh)]
    · exact h.2
    · intro r hr
      have hkey := Route.key_of_find? hr
      rw [← Route.refresh_key route.candidate r] at hkey
      simp only [Route.key, Prod.mk.injEq] at hkey
      simp only [Route.isFor, hkey]
  · rw [heq] at h
    have hsub : re.routes.Sublist (re.routes ++ [route.candidate]) := List.sublist_append_left _ _
    exact ⟨hsub.length_le.trans_lt h.1, hsub.countP_le.trans_lt h.2⟩
  · rwa [heq] at h

theorem mem_addRoute_of_ne {route r : Route} (hr : r ∈ re.routes)
    (hne : r.key ≠ route.candidate.key) : r ∈ (re.addRoute route).1.routes := by
  rcases re.addRoute_cases route with ⟨existing, -, -, hfind, heq, -⟩ | ⟨-, -, -, -, heq, -⟩ | ⟨-, heq⟩
  · rw [heq]
    exact List.mem_updateFirst_of_mem hr fun hfind => hne (Route.key_of_find? hfind)
  · rw [heq]
    exact List.mem_append_left _ hr
  · rw [heq]
    exact hr

theorem exists_key_addRoute {r : Route} (route : Route) (hr : r ∈ re.routes) :
    ∃ r' ∈ (re.addRoute route).1.routes, r'.key = r.key := by
  by_cases hkey : r.key = route.candidate.key
  · cases hadded : (re.addRoute route).2 with
    | true =>
      obtain ⟨r', hr', heq⟩ := mem_of_addRoute hadded
      refine ⟨r', hr', ?_⟩
      rw [hkey, heq]
      rfl
    | false => exact ⟨r, by rwa [addRoute_of_eq_false hadded], rfl⟩
  · exact ⟨r, mem_addRoute_of_ne hr hkey, rfl⟩

theorem mem_removeOlderLearnedRoutes {origin : NodeId} {network : IPAddress} {prefixLength : UInt32}
    {minimum : UInt64} {r : Route} (hvalid : validPrefixLength network prefixLength = true) :
    r ∈ (re.removeOlderLearnedRoutes origin network prefixLength minimum).1.routes ↔
      r ∈ re.routes ∧ (isLearned origin (canonicalPrefix network prefixLength) prefixLength r = true →
        minimum ≤ r.sequenceNumber) := by
  simp [removeOlderLearnedRoutes, hvalid, mem_eraseIf]

theorem mem_of_mem_removeOlderLearnedRoutes {origin : NodeId} {network : IPAddress} {prefixLength : UInt32}
    {minimum : UInt64} {r : Route}
    (h : r ∈ (re.removeOlderLearnedRoutes origin network prefixLength minimum).1.routes) : r ∈ re.routes := by
  unfold removeOlderLearnedRoutes at h
  split_ifs at h
  · exact h
  · exact (mem_eraseIf.mp h).1

/-! ### Direct routes -/

/-- The configured part of the table. -/
def directRoutes (re : RoutingEngine) : List Route := re.routes.filter fun route => route.type = .direct

theorem directRoutes_addRoute {route : Route} (h : route.type = .relay) :
    (re.addRoute route).1.directRoutes = re.directRoutes := by
  unfold directRoutes
  rcases re.addRoute_cases route with ⟨existing, -, -, -, heq, -⟩ | ⟨-, -, -, -, heq, -⟩ | ⟨-, heq⟩
  · rw [heq, List.filter_updateFirst]
    intro r hr
    have htype : r.type = .relay := (congrArg (fun k => k.2.2.1) (Route.key_of_find? hr)).trans h
    have hrefresh : (route.candidate.refresh r).type = .relay := by
      unfold Route.refresh
      split_ifs <;> exact h
    simp [htype, hrefresh]
  · have hcandidate : route.candidate.type = .relay := h
    rw [heq, List.filter_append, List.filter_singleton]
    simp [hcandidate]
  · rw [heq]

theorem directRoutes_removeOlderLearnedRoutes (re : RoutingEngine) (origin : NodeId) (network : IPAddress)
    (prefixLength : UInt32) (minimum : UInt64) :
    (re.removeOlderLearnedRoutes origin network prefixLength minimum).1.directRoutes = re.directRoutes := by
  unfold removeOlderLearnedRoutes
  split_ifs
  · rfl
  · simp only [directRoutes, eraseIf, List.filter_filter]
    congr 1
    funext r
    by_cases htype : r.type = .direct <;> simp [isLearned, htype]

/-! ### Learned routes -/

/-- Every relay route of `after` is one of `before`, up to what the probes have shown. -/
def LearnedWithin (before after : RoutingEngine) : Prop :=
  ∀ r' ∈ after.routes, r'.type = .relay → ∃ r ∈ before.routes, r' = { r with probe := r'.probe }

theorem LearnedWithin.refl (re : RoutingEngine) : re.LearnedWithin re := fun r hr _ => ⟨r, hr, rfl⟩

theorem LearnedWithin.trans {a b c : RoutingEngine} (hab : a.LearnedWithin b) (hbc : b.LearnedWithin c) :
    a.LearnedWithin c := by
  intro r'' hr'' htype
  obtain ⟨r', hr', heq⟩ := hbc r'' hr'' htype
  have htype' : r'.type = .relay := by
    rw [heq] at htype
    exact htype
  obtain ⟨r, hr, heq'⟩ := hab r' hr' htype'
  refine ⟨r, hr, heq.trans ?_⟩
  rw [heq']

theorem learnedWithin_eraseIf (re : RoutingEngine) (p : Route → Bool) : re.LearnedWithin (re.eraseIf p) :=
  fun r hr _ => ⟨r, (mem_eraseIf.mp hr).1, rfl⟩

theorem learnedWithin_addRoute {route : Route} (h : route.type = .direct) : re.LearnedWithin (re.addRoute route).1 := by
  intro r hr htype
  rcases mem_addRoute hr with hr | heq
  · exact ⟨r, hr, rfl⟩
  · have hdirect : r.type = .direct := by
      rw [heq]
      exact h
    rw [hdirect] at htype
    cases htype

theorem learnedWithin_updateProbe (re : RoutingEngine) (target : ProbeTarget) (f : RouteProbe → RouteProbe) :
    re.LearnedWithin (re.updateProbe target f).1 := by
  unfold updateProbe
  split_ifs
  · exact .refl re
  · exact .refl re
  · intro r hr _
    rcases List.mem_updateFirst hr with hr | ⟨existing, hfind, rfl⟩
    · exact ⟨r, hr, rfl⟩
    · exact ⟨existing, List.mem_of_find?_eq_some hfind, rfl⟩

theorem hasRoom_eraseIf {p : Route → Bool} {r : Route} (hr : r ∈ re.routes)
    (herased : p r = true) : HasRoom re.maxRoutes (re.eraseIf p).routes r.network r.prefixLength := by
  constructor
  · have hlt : (re.eraseIf p).routes.length < re.routes.length :=
      List.length_filter_lt_length_iff_exists.mpr ⟨r, hr, by simp [herased]⟩
    exact hlt.trans_le re.invariant.bounded
  · have hfor : r ∈ re.routes.filter (Route.isFor r.network r.prefixLength) :=
      List.mem_filter.mpr ⟨hr, by simp [Route.isFor]⟩
    have hlt : (re.eraseIf p).routes.countP (Route.isFor r.network r.prefixLength) <
        re.routes.countP (Route.isFor r.network r.prefixLength) := by
      rw [List.countP_eq_length_filter, List.countP_eq_length_filter, eraseIf, List.filter_comm]
      exact List.length_filter_lt_length_iff_exists.mpr ⟨r, hfor, by simp [herased]⟩
    exact hlt.trans_le (re.invariant.candidates _ _)

end RoutingEngine

end Aegis
