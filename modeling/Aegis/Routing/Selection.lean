import Aegis.Lib.RunningBest
import Aegis.Routing.Engine
import Mathlib.Data.Prod.Lex
import Mathlib.Order.OrderDual

/-!
# Which route is selected

`RoutingEngine::find_route` keeps a running best over one pass of the table. What it is for is said here
without the pass: among the usable routes whose leading bits are those of the destination, the first one of
greatest merit, merit being ordered lexicographically. The pass prefers by three comparisons written out
case by case; on the routes that `add_route` lets in, these are the order of merit, and the check of the
path that follows the pass never rejects.
-/

namespace Aegis

namespace Route

/-- The candidate is usable and its leading bits are those of the destination. -/
def Covers (route : Route) (destIp : IPAddress) : Prop :=
  route.probe.failed = false ∧ destIp.family = route.network.family ∧
    ∀ i < route.prefixLength.toNat, route.network.bit i = destIp.bit i

instance (route : Route) (destIp : IPAddress) : Decidable (route.Covers destIp) :=
  inferInstanceAs (Decidable (_ ∧ _ ∧ _))

/-- Longest prefix first, then direct before relay, then, among relay routes, the shorter path. -/
def merit (route : Route) : Nat ×ₗ Bool ×ₗ Natᵒᵈ :=
  toLex (route.prefixLength.toNat, toLex (decide (route.type = .direct),
    OrderDual.toDual (if route.type = .relay then route.path.length else 0)))

variable {route best : Route}

theorem Valid.toNat_prefixLength_le (h : route.Valid) : route.prefixLength.toNat ≤ route.network.bitWidth := by
  have hshape := h.shape
  simp only [wellShaped, validPrefixLength, Bool.and_eq_true, decide_eq_true_eq] at hshape
  exact hshape.1

theorem Valid.contains_iff (h : route.Valid) (destIp : IPAddress) :
    (IPPrefix.of route.network route.prefixLength.toUInt8).contains destIp = true ↔
      destIp.family = route.network.family ∧
        ∀ i < route.prefixLength.toNat, route.network.bit i = destIp.bit i := by
  have hwidth : route.network.bitWidth ≤ 128 := by
    unfold IPAddress.bitWidth
    split <;> omega
  have hlength : route.prefixLength.toUInt8.toNat = route.prefixLength.toNat := by
    rw [UInt32.toNat_toUInt8]
    exact Nat.mod_eq_of_lt (by have := h.toNat_prefixLength_le; omega)
  rw [IPPrefix.contains_of_iff, hlength]
  exact and_iff_right h.toNat_prefixLength_le

theorem merit_lt_iff : best.merit < route.merit ↔ best.prefixLength.toNat < route.prefixLength.toNat ∨
      best.prefixLength.toNat = route.prefixLength.toNat ∧
        (decide (best.type = .direct) < decide (route.type = .direct) ∨
          decide (best.type = .direct) = decide (route.type = .direct) ∧
            (if route.type = .relay then route.path.length else 0)
              < (if best.type = .relay then best.path.length else 0)) := by
  simp only [merit, Prod.Lex.toLex_lt_toLex, OrderDual.toDual_lt_toDual]

theorem preferred_iff (hroute : route.Valid) (hbest : best.Valid) :
    RoutingEngine.preferred route best = true ↔ best.merit < route.merit := by
  rw [merit_lt_iff]
  simp only [RoutingEngine.preferred, Bool.or_eq_true, Bool.and_eq_true, decide_eq_true_eq, beq_iff_eq,
    UInt32.lt_iff_toNat_lt, ← UInt32.toNat_inj]
  rcases hroute.direct_or_relay with hr | hr <;> rcases hbest.direct_or_relay with hb | hb <;>
    simp [hr, hb, eq_comm]

end Route

namespace RoutingEngine

theorem bestRoute_eq_argmax (re : RoutingEngine) (destIp : IPAddress) :
    re.bestRoute destIp = (re.routes.filter fun route => route.Covers destIp).argmax Route.merit := by
  unfold bestRoute
  refine List.foldl_eq_argmax_filter Route.merit _ ?_ ?_ ?_ re.invariant.valid
  · intro best route hroute hskip
    have hnot : ¬route.Covers destIp := by simpa using hskip
    split_ifs with hfailed hcontains
    · rfl
    · rfl
    · have hin := (hroute.contains_iff destIp).mp (by simpa using hcontains)
      exact absurd ⟨by simpa using hfailed, hin⟩ hnot
  · intro route hroute hcovers
    obtain ⟨hfailed, hin⟩ := of_decide_eq_true hcovers
    simp [hfailed, (hroute.contains_iff destIp).mpr hin]
  · intro best route hbest hroute hcovers
    obtain ⟨hfailed, hin⟩ := of_decide_eq_true hcovers
    simp only [hfailed, (hroute.contains_iff destIp).mpr hin, Bool.false_eq_true, Bool.not_true, if_false,
      Route.preferred_iff hroute hbest]

/-- The check after the pass never rejects: a stored relay route has a loop-free path. -/
theorem findRoute_eq_bestRoute (re : RoutingEngine) (destIp : IPAddress) :
    re.findRoute destIp = re.bestRoute destIp := by
  unfold findRoute
  cases hbest : re.bestRoute destIp with
  | none => rfl
  | some best =>
    have hmem : best ∈ re.routes := by
      rw [bestRoute_eq_argmax] at hbest
      exact List.mem_of_mem_filter (List.argmax_mem hbest)
    have hshape := (re.invariant.valid best hmem).shape
    by_cases htype : best.type = .relay
    · simp only [Route.wellShaped, htype, Bool.and_eq_true] at hshape
      simp [hshape.2.2]
    · simp [htype]

/-- The selection is exact: no route is found exactly when none covers the destination, and the route
found is the first one in the table of greatest merit among those that do. -/
theorem findRoute_first_of_greatest_merit (re : RoutingEngine) (destIp : IPAddress) :
    (re.findRoute destIp = none ↔ ∀ route ∈ re.routes, ¬route.Covers destIp) ∧
    ∀ best, re.findRoute destIp = some best ↔
      ∃ before after, re.routes = before ++ best :: after ∧ best.Covers destIp ∧
        (∀ route ∈ re.routes, route.Covers destIp → route.merit ≤ best.merit) ∧
        ∀ route ∈ before, route.Covers destIp → route.merit < best.merit := by
  rw [findRoute_eq_bestRoute, bestRoute_eq_argmax]
  constructor
  · rw [List.argmax_eq_none, List.filter_eq_nil_iff]
    simp
  · intro best
    rw [List.argmax_filter_eq_some_iff]
    simp only [decide_eq_true_eq]

end RoutingEngine

end Aegis
