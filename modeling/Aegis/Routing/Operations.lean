import Aegis.Lib.Run
import Aegis.Routing.Selection

/-!
# Runs of the routing engine

The public mutators of `RoutingEngine`, in any order and with any arguments. What a table keeps along such a
run is carried by the engine itself; it is spelled out here under the key callers name a route by, its prefix,
next hop and destination. That key leaves out the type of the route, which `add_route` compares as well: on
routes that passed the checks the type is determined, a route being direct exactly when its next hop is its
destination.
-/

namespace Aegis

/-- What callers name a route by. -/
structure RouteId where
  network : IPAddress
  prefixLength : UInt32
  nextHop : NodeId
  destination : NodeId
deriving DecidableEq

namespace Route

def routeId (route : Route) : RouteId := ⟨route.network, route.prefixLength, route.nextHop, route.destination⟩

theorem type_of_wellShaped {route : Route} (h : route.wellShaped = true) :
    route.type = if route.nextHop = route.destination then .direct else .relay := by
  simp only [wellShaped, Bool.and_eq_true] at h
  obtain ⟨-, hshape⟩ := h
  cases htype : route.type with
  | unknown => simp [htype] at hshape
  | direct =>
    simp only [htype, Bool.and_eq_true, decide_eq_true_eq] at hshape
    rw [if_pos hshape.1]
  | relay =>
    simp only [htype, Bool.and_eq_true, decide_eq_true_eq] at hshape
    rw [if_neg hshape.1]

theorem key_eq_iff_routeId_eq {a b : Route} (ha : a.wellShaped = true) (hb : b.wellShaped = true) :
    a.key = b.key ↔ a.routeId = b.routeId := by
  constructor
  · intro h
    simp only [key, Prod.mk.injEq] at h
    obtain ⟨hnetwork, hlength, -, hnext, hdestination⟩ := h
    simp only [routeId, hnetwork, hlength, hnext, hdestination]
  · intro h
    simp only [routeId, RouteId.mk.injEq] at h
    obtain ⟨hnetwork, hlength, hnext, hdestination⟩ := h
    simp only [key, type_of_wellShaped ha, type_of_wellShaped hb, hnetwork, hlength, hnext, hdestination]

theorem Valid.head? {route : Route} (h : route.Valid) (htype : route.type = .relay) :
    route.path.head? = some route.nextHop := by
  have hshape := h.shape
  simp only [wellShaped, htype, loopFree, Bool.and_eq_true, decide_eq_true_eq] at hshape
  exact hshape.2.2.1.1.2

end Route

inductive RouteOp where
  | addRoute (route : Route)
  | removeRoute (peerId : NodeId)
  | removeOlderLearnedRoutes (origin : NodeId) (network : IPAddress) (prefixLength : UInt32)
      (minimumSequence : UInt64)
  | expireLearnedRoutes (now : Time)
  | markProbeSent (target : RoutingEngine.ProbeTarget) (now : Time)
  | recordProbeSuccess (target : RoutingEngine.ProbeTarget) (now rtt : Time)
  | recordProbeFailure (target : RoutingEngine.ProbeTarget) (now : Time)
  | clear

/-- The clock reading an operation is given. -/
def RouteOp.time? : RouteOp → Option Time
  | .expireLearnedRoutes now | .markProbeSent _ now | .recordProbeSuccess _ now _
  | .recordProbeFailure _ now => some now
  | .addRoute _ | .removeRoute _ | .removeOlderLearnedRoutes _ _ _ _ | .clear => none

namespace RoutingEngine

def step (re : RoutingEngine) : RouteOp → RoutingEngine
  | .addRoute route => (re.addRoute route).1
  | .removeRoute peerId => re.removeRoute peerId
  | .removeOlderLearnedRoutes origin network prefixLength minimumSequence =>
    (re.removeOlderLearnedRoutes origin network prefixLength minimumSequence).1
  | .expireLearnedRoutes now => (re.expireLearnedRoutes now).1
  | .markProbeSent target now => (re.markProbeSent target now).1
  | .recordProbeSuccess target now rtt => (re.recordProbeSuccess target now rtt).1
  | .recordProbeFailure target now => (re.recordProbeFailure target now).1
  | .clear => re.clear

def run (re : RoutingEngine) (ops : List RouteOp) : RoutingEngine := ops.foldl step re

/-! ### The table -/

theorem maxRoutes_updateProbe (re : RoutingEngine) (target : ProbeTarget) (f : RouteProbe → RouteProbe) :
    (re.updateProbe target f).1.maxRoutes = re.maxRoutes := by
  unfold updateProbe
  split_ifs <;> rfl

theorem maxRoutes_step (re : RoutingEngine) (op : RouteOp) : (re.step op).maxRoutes = re.maxRoutes := by
  cases op with
  | addRoute route => exact re.addRoute_maxRoutes route
  | removeRoute | expireLearnedRoutes | clear => rfl
  | removeOlderLearnedRoutes =>
    simp only [step, removeOlderLearnedRoutes]
    split_ifs <;> rfl
  | markProbeSent target now => exact re.maxRoutes_updateProbe target _
  | recordProbeFailure target now => exact re.maxRoutes_updateProbe target _
  | recordProbeSuccess target now rtt =>
    simp only [step, recordProbeSuccess]
    split_ifs
    · rfl
    · exact re.maxRoutes_updateProbe target _

theorem maxRoutes_run (re : RoutingEngine) (ops : List RouteOp) : (re.run ops).maxRoutes = re.maxRoutes :=
  Run.invariant (fun re' : RoutingEngine => re'.maxRoutes = re.maxRoutes)
    (fun re' op h => (re'.maxRoutes_step op).trans h) rfl ops

theorem eq_of_routeId_eq {re : RoutingEngine} {a b : Route} (ha : a ∈ re.routes) (hb : b ∈ re.routes)
    (h : a.routeId = b.routeId) : a = b :=
  eq_of_key_eq ha hb
    ((Route.key_eq_iff_routeId_eq (re.invariant.valid a ha).shape (re.invariant.valid b hb).shape).mpr h)

theorem nodup_routeIds (re : RoutingEngine) : (re.routes.map Route.routeId).Nodup :=
  List.Nodup.map_on (fun _ ha _ hb h => eq_of_routeId_eq ha hb h) re.invariant.keys.of_map

theorem addRoute_of_routeId {re : RoutingEngine} {r route : Route} (hr : r ∈ re.routes)
    (hshape : route.wellShaped = true) (hlimits : route.withinLimits = true)
    (hid : route.candidate.routeId = r.routeId) : (re.addRoute route).2 = true := by
  rw [addRoute_eq_true_iff]
  refine ⟨hshape, hlimits, Or.inl ⟨r, hr, ?_⟩⟩
  have hcandidate : route.candidate.wellShaped = true := by rw [Route.wellShaped_candidate, hshape]
  exact (Route.key_eq_iff_routeId_eq (re.invariant.valid r hr).shape hcandidate).mpr hid.symm

/-- What the table of an engine is like after any operations on it: prefixes are canonical, ids distinct, the
two capacities kept and paths of the right shape, and a route under a stored id is always taken. -/
theorem table_wellFormed (maxRoutes : Nat) (ops : List RouteOp) :
    let re := run { maxRoutes := maxRoutes, routes := [] } ops
    (∀ r ∈ re.routes, validPrefixLength r.network r.prefixLength = true ∧
      canonicalPrefix r.network r.prefixLength = r.network) ∧
    (re.routes.map Route.routeId).Nodup ∧
    (∀ network prefixLength,
      (re.routes.filter fun r => r.network = network && r.prefixLength = prefixLength).length ≤ 8) ∧
    re.routes.length ≤ maxRoutes ∧
    (∀ r ∈ re.routes, r.type = .direct ∧ r.path = [r.destination] ∨
      r.type = .relay ∧ r.path.Nodup ∧ 2 ≤ r.path.length ∧ r.path.head? = some r.nextHop ∧
        r.path.getLast? = some r.destination) ∧
    ∀ r ∈ re.routes, ∀ route, route.wellShaped = true → route.withinLimits = true →
      route.candidate.routeId = r.routeId → (re.addRoute route).2 = true := by
  intro re
  refine ⟨fun r hr => ?_, re.nodup_routeIds, fun network prefixLength => ?_, ?_, fun r hr => ?_, ?_⟩
  · have hvalid := re.invariant.valid r hr
    have hshape := hvalid.shape
    rw [Route.wellShaped, Bool.and_eq_true] at hshape
    exact ⟨hshape.1, hvalid.canonical⟩
  · have hcount := re.invariant.candidates network prefixLength
    rw [List.countP_eq_length_filter] at hcount
    exact hcount
  · have hmax : re.maxRoutes = maxRoutes := maxRoutes_run _ ops
    rw [← hmax]
    exact re.invariant.bounded
  · have hvalid := re.invariant.valid r hr
    rcases hvalid.direct_or_relay with htype | htype
    · exact Or.inl ⟨htype, (hvalid.direct htype).2⟩
    · obtain ⟨-, htwo, hlast, hnodup⟩ := hvalid.relay htype
      exact Or.inr ⟨htype, hnodup, htwo, hvalid.head? htype, hlast⟩
  · exact fun r hr route hshape hlimits hid => addRoute_of_routeId hr hshape hlimits hid

end RoutingEngine

end Aegis
